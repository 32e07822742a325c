import Adbi.CallProofs
import Adbi.RegistryProofs

/-! The two orders in which a clone is reported: the event of the parent before
or after the first stop of the child. Both make the same registry, but one
passes the child's first `SIGSTOP` on to it and the other does not. -/
namespace Adbi.CloneProofs
open Adbi.Lib Adbi.Tracee Adbi.CallProofs Adbi.Registry Adbi.RegistryProofs

variable {g : Injection.ImportGraph} {births : Pid → Birth} {s : Server}

/-- The parent's event first, then the `SIGSTOP` of the child it made known. -/
def parentFirst (g : Injection.ImportGraph) (births : Pid → Birth) (s : Server) (parent child : Pid)
    (regs : Regs) (rescan : Rescan) (parentReports childReports : List Report) :
    Except Fault Server := do
  let s ← handleStatus g births s parent (.clone child) parentReports
  handleStatus g births s child (.signal .sigstop regs rescan) childReports

/-- The `SIGSTOP` of an unknown child first, then the parent's event. -/
def childFirst (g : Injection.ImportGraph) (births : Pid → Birth) (s : Server) (parent child : Pid)
    (regs : Regs) (parentReports childReports : List Report) : Except Fault Server := do
  let s ← handleStatusUnknown g births s child regs childReports
  handleStatus g births s parent (.clone child) parentReports

/-! ## What stays in one thread -/

/-- Children that are known already change nothing. -/
private theorem register_known (children : List Pid) (known : ∀ c ∈ children, s.threads c ≠ none) :
    children.foldlM (registerChild g births) s = .ok s := by
  induction children with
  | nil => rfl
  | cons c rest ih =>
    obtain ⟨entry, found⟩ := Option.ne_none_iff_exists'.mp (known c List.mem_cons_self)
    simp only [List.foldlM_cons, registerChild, found]
    exact ih fun c member => known c (List.mem_cons_of_mem _ member)

/-- An action that execs nothing and clones nothing new changes one thread of the registry. -/
private theorem keepProcess_threads (alone : w.alone = false)
    (known : ∀ c ∈ w.children, s.threads c ≠ none)
    (kept : keepProcess g births s pid process w = .ok final) : final.threads = s.threads := by
  simp only [keepProcess, alone, Bool.false_eq_true, ↓reduceIte] at kept
  rw [register_known] at kept
  · cases kept
    rfl
  · exact fun c member => known c (List.mem_reverse.mp member)

/-- A thread that goes on, after signals at most, changes nothing but itself. -/
private theorem resume_frame (signo : Option Signal) (plain : ∀ r ∈ w.reports, Plain r)
    (stopped : w.thread.running = false)
    (ok : threadContinueOrStop fncallCall signo w = .ok () w') : Frame w w' := by
  cases alive : w.thread.dead with
  | true =>
    have same : threadContinueOrStop fncallCall signo w = .ok () w :=
      by simp [threadContinueOrStop, alive]
    rw [same] at ok
    cases ok
    exact Frame.refl w
  | false =>
    by_cases kept : w.thread.stopme = true ∨ w.thread.slavemode = true
    · rw [resume_kept fncallCall signo alive stopped kept] at ok
      cases ok
      exact ⟨rfl, rfl, rfl⟩
    · obtain ⟨unasked, free⟩ : w.thread.stopme = false ∧ w.thread.slavemode = false :=
        by simpa using kept
      have ready : Ready w := ⟨alive, stopped, free⟩
      cases notified : w.thread.notified with
      | true =>
        rw [resume_announced signo ready unasked notified] at ok
        cases ok
        exact ⟨rfl, rfl, rfl⟩
      | false =>
        rw [resume_unannounced signo ready unasked notified] at ok
        have ends := calls_end (w.layout.handlers w.leader) ready
        cases ending : callsEnd w.thread.execed w.layout (w.layout.handlers w.leader) w.reports with
        | none =>
          rw [ending] at ends
          obtain ⟨fault, v, failed⟩ := ends
          rw [failed] at ok
          cases ok
        | some ending' =>
          rw [ending] at ends
          obtain ⟨v, ran, settled⟩ := ends
          rw [ran] at ok
          cases ok
          have frame := settled.frame (.inr plain)
          exact ⟨frame.layout, frame.children, frame.alone⟩

/-! ## The parent -/

/-- The event of a parent leaves a known child as it is. -/
private theorem parent_event {reports : List Report} (plain : ∀ r ∈ reports, Plain r)
    (different : child ≠ parent)
    (known : s.threads child = some entry)
    (ok : inThread g births s parent reports (threadHandleStatus fncallCall (.clone child)) =
      .ok final) :
    final.threads child = some entry := by
  cases found : s.threads parent with
  | none =>
    simp only [inThread, found] at ok
    cases ok
    exact known
  | some parentEntry =>
    obtain ⟨process, w, -, ran, kept⟩ := inThread_ok found ok
    have frame := resume_frame none
      (w := { worldOf parent parentEntry process reports with
        children := [child], thread :=
        { parentEntry.thread with running := false, setoptions := true } }) plain rfl ran
    have still : (keepThread s parent parentEntry w.thread).threads child = some entry :=
      (keepThread_other different w.thread).trans known
    rw [keepProcess_threads frame.alone ?_ kept]
    · exact still
    · intro c member
      rw [frame.children] at member
      cases List.mem_singleton.mp member
      simp [still]

/-! ## The child -/

/-- The child as it is announced, in either order. -/
private def bornWorld (child process : Pid) (record : Process) (regs : Regs)
    (reports : List Report) : World :=
  worldOf child ⟨process, { newThread regs none with notified := false }⟩ record reports

/-- The first `SIGSTOP` of a child that was taken to be running. -/
private theorem first_stop (record : Process) :
    threadHandleStatus fncallCall (.signal .sigstop regs rescan)
        (worldOf child ⟨process,
          { newThread ⟨0, 0⟩ (some .elsewhere) with running := true, notified := false }⟩
          record reports) =
      threadContinueOrStop fncallCall (some ⟨.sigstop, .elsewhere⟩)
      (bornWorld child process record regs reports) := by
  simp [threadHandleStatus, worldOf, bornWorld, newThread, stoppedBy, isTrap,
    threadHandleSignal, setThread]

/-- A child that lives through its announcement is resumed with `signo`. -/
private theorem born_resumes (signo : Option Signal) (record : Process)
    (ok : threadContinueOrStop fncallCall signo (bornWorld child process record regs reports) =
      .ok () w) :
    w.alone = false ∧ w.children = [] ∧
    (w.thread.dead = false → w.thread.delivered.head? = some signo) := by
  have ready : Ready (bornWorld child process record regs reports) := ⟨rfl, rfl, rfl⟩
  rw [resume_unannounced signo ready rfl rfl] at ok
  have ends := calls_end ((bornWorld child process record regs reports).layout.handlers
    (bornWorld child process record regs reports).leader) ready
  cases ending : callsEnd _ _ _ (bornWorld child process record regs reports).reports with
  | none =>
    rw [ending] at ends
    obtain ⟨fault, v, failed⟩ := ends
    rw [failed] at ok
    cases ok
  | some ending' =>
    rw [ending] at ends
    obtain ⟨v, ran, settled⟩ := ends
    rw [ran] at ok
    cases ok
    have frame := settled.frame (.inl rfl)
    refine ⟨frame.alone, frame.children, fun alive => ?_⟩
    cases fate : ending'.fate with
    | untouched =>
      cases settled.untouched fate
      cases signo <;> rfl
    | survived =>
      obtain ⟨ready', -, -, -, none⟩ := settled.survived fate
      cases signo <;> simp [threadContinue, ready'.alive, ready'.stopped, none]
    | died => simp [threadContinue, (settled.died fate).dead] at alive

/-- The last step of the first order: the child is gone, or its `SIGSTOP` was passed on. -/
private theorem child_stop (known : s.threads child = some
      ⟨process, { newThread ⟨0, 0⟩ (some .elsewhere) with running := true, notified := false }⟩)
    (ok : handleStatus g births s child (.signal .sigstop regs rescan) reports = .ok final) :
    final.threads child = none ∨ ∃ entry, final.threads child = some entry ∧
      entry.thread.delivered.head? = some (some ⟨.sigstop, .elsewhere⟩) := by
  obtain ⟨record, w, -, ran, kept⟩ := inThread_ok known ok
  rw [first_stop record] at ran
  obtain ⟨alone, children, passed⟩ := born_resumes _ record ran
  rw [keepProcess_threads alone (by simp [children]) kept, keepThread_same]
  cases dead : w.thread.dead with
  | true => exact .inl rfl
  | false => exact .inr ⟨_, rfl, passed dead⟩

/-- The first step of the second order: the child is gone, or was resumed without a signal. -/
private theorem child_born (known : s.threads child =
      some ⟨process, { newThread regs none with notified := false }⟩)
    (ok : inThread g births s child reports (threadContinueOrStop fncallCall none) = .ok final) :
    final.threads child = none ∨ ∃ entry, final.threads child = some entry ∧
      entry.thread.delivered.head? = some none := by
  obtain ⟨record, w, -, ran, kept⟩ := inThread_ok known ok
  obtain ⟨alone, children, passed⟩ := born_resumes none record ran
  rw [keepProcess_threads alone (by simp [children]) kept, keepThread_same]
  cases dead : w.thread.dead with
  | true => exact .inl rfl
  | false => exact .inr ⟨_, rfl, passed dead⟩

/-- Creating the child registers it, in whatever process. -/
private theorem created_known (birth : (births child).child = child)
    (ok : threadCloneCreateChild g s (births child) thread = .ok final) :
    ∃ process, final.threads child = some ⟨process, { thread with notified := false }⟩ := by
  obtain ⟨process, -, threads, -⟩ := created birth ok
  exact ⟨process, by rw [threads, Function.update_self]⟩

/-! ## Both orders -/

/-- The parent's event registers an unknown child as running. -/
private theorem register_unknown (birth : (births child).child = child)
    (unknown : s.threads child = none)
    (ok : registerChild g births s child = .ok final) :
    ∃ process, final.threads child = some
      ⟨process, { newThread ⟨0, 0⟩ (some .elsewhere) with running := true, notified := false }⟩ := by
  simp only [registerChild, unknown] at ok
  exact created_known birth ok

/-- A successful event of the parent, step by step. -/
private theorem parent_ok (ok : handleStatus g births s parent (.clone child) reports = .ok final) :
    ∃ middle, registerChild g births s child = .ok middle ∧
      inThread g births middle parent reports (threadHandleStatus fncallCall (.clone child)) =
        .ok final := by
  unfold handleStatus at ok
  cases registered : registerChild g births s child with
  | error fault =>
    simp only [registered] at ok
    cases ok
  | ok middle =>
    simp only [registered] at ok
    exact ⟨middle, rfl, ok⟩

/-- After the parent's event first, the child is gone or has got its `SIGSTOP`. -/
private theorem parentFirst_child (birth : (births child).child = child)
    (unknown : s.threads child = none)
    (different : child ≠ parent) (plain : ∀ r ∈ parentReports, Plain r)
    (ok : parentFirst g births s parent child regs rescan parentReports childReports = .ok final) :
    final.threads child = none ∨ ∃ entry, final.threads child = some entry ∧
      entry.thread.delivered.head? = some (some ⟨.sigstop, .elsewhere⟩) := by
  unfold parentFirst at ok
  cases event : handleStatus g births s parent (.clone child) parentReports with
  | error fault =>
    rw [event] at ok
    cases ok
  | ok middle =>
    rw [event] at ok
    obtain ⟨registered, registers, ran⟩ := parent_ok event
    obtain ⟨process, known⟩ := register_unknown birth unknown registers
    exact child_stop (parent_event plain different known ran) ok

/-- After the child's stop first, the child is registered, and no signal was passed to it. -/
private theorem childFirst_child (birth : (births child).child = child) (different : child ≠ parent)
    (plain : ∀ r ∈ parentReports, Plain r)
    (ok : childFirst g births s parent child regs parentReports childReports = .ok final) :
    ∃ entry, final.threads child = some entry ∧
      entry.thread.delivered.head? ≠ some (some ⟨.sigstop, .elsewhere⟩) := by
  unfold childFirst handleStatusUnknown at ok
  cases creates : threadCloneCreateChild g s (births child) (newThread regs none) with
  | error fault =>
    rw [creates] at ok
    cases ok
  | ok middle =>
    rw [creates] at ok
    obtain ⟨process, known⟩ := created_known birth creates
    cases announces : inThread g births middle child childReports
      (threadContinueOrStop fncallCall none) with
    | error fault =>
      simp only [bind, Except.bind, announces] at ok
      cases ok
    | ok resumed =>
      simp only [bind, Except.bind, announces] at ok
      obtain ⟨registered, registers, ran⟩ := parent_ok ok
      rcases child_born known announces with gone | ⟨entry, found, passed⟩
      · -- The event of the parent registers the dead child once more.
        obtain ⟨process, known⟩ := register_unknown birth gone registers
        exact ⟨_, parent_event plain different known ran, by simp [newThread]⟩
      · simp only [registerChild, found] at registers
        cases registers
        exact ⟨entry, parent_event plain different found ran, by simp [passed]⟩

/-- For no clone of a thread the server does not know yet, and in no state of
the server, do the two orders lead to the same state: when the parent's event
comes first, the child is passed the `SIGSTOP` of its birth, or is forgotten if
it dies while it is announced; otherwise it is resumed without a signal, or
registered again. -/
theorem clone_orders_never_agree (g : Injection.ImportGraph) (births : Pid → Birth) (s : Server)
    (parent child : Pid)
    (regs : Regs) (rescan : Rescan) (parentReports childReports : List Report)
    (birth : (births child).child = child) (unknown : s.threads child = none)
    (different : child ≠ parent)
    (plain : ∀ r ∈ parentReports, Plain r) :
    ¬ ∃ final, parentFirst g births s parent child regs rescan parentReports childReports = .ok final ∧
      childFirst g births s parent child regs parentReports childReports = .ok final := by
  rintro ⟨final, first, second⟩
  obtain ⟨entry, found, notPassed⟩ := childFirst_child birth different plain second
  rcases parentFirst_child birth unknown different plain first with gone | ⟨entry', found', passed⟩
  · rw [gone] at found
    cases found
  · rw [found'] at found
    cases found
    exact notPassed passed

def noHandlers : Layout where
  jump _ := none
  linkerBkpt := 0
  code _ := false
  artificial _ := false
  newProcess := []
  newThread := []

/-- Process 1 with one running thread. -/
def single : Server where
  processes := Function.update (fun _ => none) 1 (some ⟨false, false, noHandlers,
    Injection.attached noImports, [1]⟩)
  threads := Function.update (fun _ => none) 1
    (some ⟨1, { newThread ⟨8, 0⟩ none with running := true, setoptions := false }⟩)

/-- Its thread makes another one, 2. -/
def siblingBirth (child : Pid) : Birth := ⟨child, 1, 0⟩

theorem single_orders_disagree :
    ¬ ∃ final, parentFirst noImports siblingBirth single 1 2 ⟨8, 0⟩ ⟨[], noHandlers⟩ [] [] = .ok final ∧
      childFirst noImports siblingBirth single 1 2 ⟨8, 0⟩ [] [] = .ok final :=
  clone_orders_never_agree noImports siblingBirth single 1 2 ⟨8, 0⟩ ⟨[], noHandlers⟩ [] [] rfl rfl
    (by decide) (by simp)

/-- What `PTRACE_CONT` passed to a thread of the registry. -/
def passedTo (pid : Pid) (s : Except Fault Server) : Option (List (Option Signal)) :=
  match s with
  | .ok s => (s.threads pid).map (·.thread.delivered)
  | .error _ => none

/-- The new thread gets a `SIGSTOP` in the one order and nothing in the other. -/
theorem single_orders_pass_different_signals :
    passedTo 2 (parentFirst noImports siblingBirth single 1 2 ⟨8, 0⟩ ⟨[], noHandlers⟩ [] []) =
        some [some ⟨.sigstop, .elsewhere⟩] ∧
      passedTo 2 (childFirst noImports siblingBirth single 1 2 ⟨8, 0⟩ [] []) = some [none] := by
  decide

end Adbi.CloneProofs
