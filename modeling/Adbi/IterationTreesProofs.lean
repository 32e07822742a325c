import Adbi.Iteration

/-! What the operations of `list.c`, `process.c`, `thread.c` and `injection.c`
leave in the trees: which nodes they may take out, and that every node stays
where its object says. Only the loops step to nodes, so none of the operations
gets to a node that is gone. -/
namespace Adbi.IterationTreesProofs
open Adbi.Lib Adbi.Iteration
open Adbi.Linking (Pointer)

/-- Every node stands where its object says. -/
structure Consistent (s : Server) : Prop where
  process : ∀ e ∈ s.processes.entries, (s.process e.2).pid = e.1 ∧ e.2 < s.fresh
  thread : ∀ p, ∀ e ∈ (s.process p).threads.entries, s.thread e.2 = ⟨e.1, p⟩ ∧
      e.2 < s.fresh ∧ p < s.fresh
  injection : ∀ p, ∀ e ∈ (s.process p).injections.entries,
    (s.injection e.2).process = p ∧ (s.injection e.2).injectable = e.1 ∧ e.2 < s.fresh ∧ p < s.fresh

/-- The nodes that an operation may take out of the trees. -/
structure Loss where
  process : Pid → Prop
  thread : Node → Pid → Prop
  injection : Node → Pointer → Prop

namespace Loss

def nothing : Loss := ⟨fun _ => False, fun _ _ => False, fun _ _ => False⟩

def ofProcess (pid : Pid) : Loss := { nothing with process := fun k => k = pid }

def ofThread (thread : Thread) : Loss :=
  { nothing with thread := fun p k => p = thread.process ∧ k = thread.pid }

def ofInjection (p : Node) (x : Pointer) : Loss := { nothing with injection := fun q k => q = p ∧ k = x }

def ofInjections (p : Node) : Loss := { nothing with injection := fun q _ => q = p }

end Loss

/-- Objects stay what they are, and the trees keep what is not lost. -/
structure Retains (lost : Loss) (s s' : Server) : Prop where
  fresh : s.fresh ≤ s'.fresh
  pid : ∀ n < s.fresh, (s'.process n).pid = (s.process n).pid
  thread : ∀ n < s.fresh, s'.thread n = s.thread n
  owner : ∀ n < s.fresh, (s'.injection n).process = (s.injection n).process
  injectable : ∀ n < s.fresh, (s'.injection n).injectable = (s.injection n).injectable
  processes : ∀ e ∈ s.processes.entries, ¬lost.process e.1 → e ∈ s'.processes.entries
  threads : ∀ p < s.fresh, ∀ e ∈ (s.process p).threads.entries, ¬lost.thread p e.1 →
      e ∈ (s'.process p).threads.entries
  injections : ∀ p < s.fresh, ∀ e ∈ (s.process p).injections.entries, ¬lost.injection p e.1 →
    e ∈ (s'.process p).injections.entries

/-- What is true of an operation on the server: it never steps to a node, it
keeps the trees in order and it loses no more than it says. -/
structure Does (lost : Loss) (s : Server) (result : Except Fault Server) : Prop where
  steady : result ≠ .error .dangling
  ran : ∀ s', result = .ok s' → Consistent s' ∧ Retains lost s s'

section
variable {κ : Type} [LinearOrder κ] {t u : OrderedTree κ Node} {k : κ} {n : Node}

private theorem inserted_of_ok (ok : treeInsert t k n = .ok u) : ∀ e, e ∈ u.entries ↔
    e = (k, n) ∨ e ∈ t.entries := by
  simp only [treeInsert] at ok
  split at ok
  · rename_i inserted
    cases ok
    exact fun _ => OrderedTree.mem_tryInsert inserted
  · cases ok

private theorem removed_of_ok (ok : treeRemove t k = .ok u) : u = t.remove k := by
  simp only [treeRemove] at ok
  split at ok
  · cases ok
    rfl
  · cases ok

private theorem treeInsert_steady (t : OrderedTree κ Node) (k : κ) (n : Node) :
    treeInsert t k n ≠ .error .dangling := by
  simp only [treeInsert]
  split <;> simp

private theorem treeRemove_steady (t : OrderedTree κ Node) (k : κ) :
    treeRemove t k ≠ .error .dangling := by
  simp only [treeRemove]
  split <;> simp

end

/-- A sequence steps wrong only where one of its parts does. -/
theorem bind_steady {α β : Type} {first : Except Fault α} {then' : α → Except Fault β}
    (head : first ≠ .error .dangling) (tail : ∀ a, first = .ok a → then' a ≠ .error .dangling) :
    first >>= then' ≠ .error .dangling := by
  intro failed
  rcases bind_error failed with here | ⟨a, ok, later⟩
  · exact head here
  · exact tail a ok later

variable {s s' : Server} {p t i : Node} {pid : Pid} {x : Pointer}

private theorem setThreads_threads (s : Server) (p q : Node) (u : OrderedTree Pid Node) :
    ((s.setThreads p u).process q).threads = if q = p then u else (s.process q).threads := by
  simp only [Server.setThreads, Function.update_apply]
  split <;> rfl

private theorem setThreads_injections (s : Server) (p q : Node) (u : OrderedTree Pid Node) :
    ((s.setThreads p u).process q).injections = (s.process q).injections := by
  simp only [Server.setThreads, Function.update_apply]
  split
  · rename_i same
    rw [same]
  · rfl

private theorem setThreads_pid (s : Server) (p q : Node) (u : OrderedTree Pid Node) :
    ((s.setThreads p u).process q).pid = (s.process q).pid := by
  simp only [Server.setThreads, Function.update_apply]
  split
  · rename_i same
    rw [same]
  · rfl

private theorem setInjections_injections (s : Server) (p q : Node) (u : OrderedTree Pointer Node) :
    ((s.setInjections p u).process q).injections = if q = p then u else (s.process q).injections := by
  simp only [Server.setInjections, Function.update_apply]
  split <;> rfl

private theorem setInjections_threads (s : Server) (p q : Node) (u : OrderedTree Pointer Node) :
    ((s.setInjections p u).process q).threads = (s.process q).threads := by
  simp only [Server.setInjections, Function.update_apply]
  split
  · rename_i same
    rw [same]
  · rfl

private theorem setInjections_pid (s : Server) (p q : Node) (u : OrderedTree Pointer Node) :
    ((s.setInjections p u).process q).pid = (s.process q).pid := by
  simp only [Server.setInjections, Function.update_apply]
  split
  · rename_i same
    rw [same]
  · rfl

/-! ## The operations -/

/-- Other threads of one process. -/
private theorem setThreads_does (consistent : Consistent s) (lost : Loss)
    (known : ∀ e ∈ own.entries, s.thread e.2 = ⟨e.1, p⟩ ∧ e.2 < s.fresh ∧ p < s.fresh)
    (kept : ∀ e ∈ (s.process p).threads.entries, ¬lost.thread p e.1 → e ∈ own.entries)
    (threads : OrderedTree Pid Node) :
    Consistent { s.setThreads p own with threads := threads } ∧
      Retains lost s { s.setThreads p own with threads := threads } := by
  refine ⟨⟨?_, ?_, ?_⟩, ⟨le_rfl, ?_, fun _ _ => rfl, fun _ _ => rfl, fun _ _ => rfl,
    fun _ member _ => member, ?_, ?_⟩⟩
  · intro e member
    exact ⟨(setThreads_pid s p e.2 own).trans (consistent.process e member).1,
      (consistent.process e member).2⟩
  · intro q e member
    have present : e ∈ ((s.setThreads p own).process q).threads.entries := member
    rw [setThreads_threads] at present
    split at present
    · rename_i same
      rw [same] at *
      exact known e present
    · exact consistent.thread q e present
  · intro q e member
    have present : e ∈ ((s.setThreads p own).process q).injections.entries := member
    rw [setThreads_injections] at present
    exact consistent.injection q e present
  · exact fun n _ => setThreads_pid s p n own
  · intro q _ e member spared
    have present : e ∈ ((s.setThreads p own).process q).threads.entries := by
      rw [setThreads_threads]
      split
      · rename_i same
        subst same
        exact kept e member spared
      · exact member
    exact present
  · intro q _ e member _
    have present : e ∈ ((s.setThreads p own).process q).injections.entries := by
      rw [setThreads_injections]
      exact member
    exact present

/-- Other injections of one process. -/
private theorem setInjections_does (consistent : Consistent s) (lost : Loss)
    (known : ∀ e ∈ own.entries,
      (s.injection e.2).process = p ∧ (s.injection e.2).injectable = e.1 ∧ e.2 < s.fresh ∧ p < s.fresh)
    (kept : ∀ e ∈ (s.process p).injections.entries, ¬lost.injection p e.1 → e ∈ own.entries) :
    Consistent (s.setInjections p own) ∧ Retains lost s (s.setInjections p own) := by
  refine ⟨⟨?_, ?_, ?_⟩, ⟨le_rfl, ?_, fun _ _ => rfl, fun _ _ => rfl, fun _ _ => rfl,
    fun _ member _ => member, ?_, ?_⟩⟩
  · intro e member
    exact ⟨(setInjections_pid s p e.2 own).trans (consistent.process e member).1,
      (consistent.process e member).2⟩
  · intro q e member
    rw [setInjections_threads] at member
    exact consistent.thread q e member
  · intro q e member
    rw [setInjections_injections] at member
    split at member
    · rename_i same
      rw [same] at *
      exact known e member
    · exact consistent.injection q e member
  · exact fun n _ => setInjections_pid s p n own
  · intro q _ e member _
    rw [setInjections_threads]
    exact member
  · intro q _ e member spared
    rw [setInjections_injections]
    split
    · rename_i same
      subst same
      exact kept e member spared
    · exact member

theorem threadDel_does (consistent : Consistent s) (t : Node) :
    Does (.ofThread (s.thread t)) s (threadDel s t) where
  steady :=
    bind_steady (treeRemove_steady _ _) fun _ _ =>
    bind_steady (treeRemove_steady _ _) fun _ _ failed => by cases failed
  ran := by
    intro s' ran
    obtain ⟨threads, -, ran⟩ := bind_ok ran
    obtain ⟨own, removed, ran⟩ := bind_ok ran
    cases ran
    rw [removed_of_ok removed]
    refine setThreads_does consistent _ (fun e member =>
      consistent.thread _ e (OrderedTree.mem_remove.mp member).1) ?_ threads
    intro e member spared
    exact OrderedTree.mem_remove.mpr ⟨member, fun same => spared ⟨rfl, same⟩⟩

theorem processDel_does (consistent : Consistent s) (p : Node) :
    Does (.ofProcess (s.process p).pid) s (processDel s p) where
  steady := bind_steady (treeRemove_steady _ _) fun _ _ failed => by cases failed
  ran := by
    intro s' ran
    obtain ⟨processes, removed, ran⟩ := bind_ok ran
    cases ran
    rw [removed_of_ok removed]
    refine ⟨⟨fun e member => consistent.process e (OrderedTree.mem_remove.mp member).1,
      consistent.thread, consistent.injection⟩, ?_⟩
    refine ⟨le_rfl, fun _ _ => rfl, fun _ _ => rfl, fun _ _ => rfl, fun _ _ => rfl, ?_,
      fun _ _ _ member _ => member,
      fun _ _ _ member _ => member⟩
    exact fun e member spared => OrderedTree.mem_remove.mpr ⟨member, spared⟩

theorem injectionFree_does (consistent : Consistent s) (i : Node) :
    Does (.ofInjection (s.injection i).process (s.injection i).injectable) s (injectionFree s i) where
  steady := bind_steady (treeRemove_steady _ _) fun _ _ failed => by cases failed
  ran := by
    intro s' ran
    obtain ⟨own, removed, ran⟩ := bind_ok ran
    cases ran
    rw [removed_of_ok removed]
    refine setInjections_does consistent _ (fun e member =>
      consistent.injection _ e (OrderedTree.mem_remove.mp member).1) ?_
    intro e member spared
    exact OrderedTree.mem_remove.mpr ⟨member, fun same => spared ⟨rfl, same⟩⟩

theorem injectionReset_does (consistent : Consistent s) (p : Node) :
    Consistent (injectionReset s p) ∧ Retains (.ofInjections p) s (injectionReset s p) :=
  setInjections_does consistent _ (fun _ member => by cases member) fun _ _ spared => absurd rfl spared

theorem setReferences_does (consistent : Consistent s) (i : Node) (references : BitVec 32) :
    Consistent (s.setReferences i references) ∧ Retains .nothing s (s.setReferences i references) := by
  have owner (n : Node) : ((s.setReferences i references).injection n).process =
      (s.injection n).process := by
    simp only [Server.setReferences, Function.update_apply]
    split
    · rename_i same
      rw [same]
    · rfl
  have injectable (n : Node) : ((s.setReferences i references).injection n).injectable =
      (s.injection n).injectable := by
    simp only [Server.setReferences, Function.update_apply]
    split
    · rename_i same
      rw [same]
    · rfl
  refine ⟨⟨consistent.process, consistent.thread, ?_⟩,
    ⟨le_rfl, fun _ _ => rfl, fun _ _ => rfl, fun n _ => owner n,
    fun n _ => injectable n, fun _ member _ => member, fun _ _ _ member _ => member,
    fun _ _ _ member _ => member⟩⟩
  intro p e member
  obtain ⟨ofProcess, ofInjectable, bounds⟩ := consistent.injection p e member
  exact ⟨(owner e.2).trans ofProcess, (injectable e.2).trans ofInjectable, bounds⟩

/-- An operation that loses nothing, and another one after it. -/
private theorem Retains.trans (first : Retains .nothing s s₁) (second : Retains lost s₁ s₂) :
    Retains lost s s₂ where
  fresh := first.fresh.trans second.fresh
  pid := fun n bound => (second.pid n (bound.trans_le first.fresh)).trans (first.pid n bound)
  thread := fun n bound => (second.thread n (bound.trans_le first.fresh)).trans (first.thread n bound)
  owner := fun n bound => (second.owner n (bound.trans_le first.fresh)).trans (first.owner n bound)
  injectable := fun n bound => (second.injectable n (bound.trans_le first.fresh)).trans
    (first.injectable n bound)
  processes := fun e member => second.processes e (first.processes e member not_false)
  threads := fun p bound e member =>
    second.threads p (bound.trans_le first.fresh) e (first.threads p bound e member not_false)
  injections := fun p bound e member =>
    second.injections p (bound.trans_le first.fresh) e (first.injections p bound e member not_false)

/-- A new thread that is in no tree yet. -/
private def withThread (s : Server) (thread : Thread) : Server :=
  { s with thread := Function.update s.thread s.fresh thread, fresh := s.fresh + 1 }

/-- A new injection that is in no tree yet. -/
private def withInjection (s : Server) (injection : Injection) : Server :=
  { s with injection := Function.update s.injection s.fresh injection, fresh := s.fresh + 1 }

private theorem withThread_does (consistent : Consistent s) (thread : Thread) :
    Consistent (withThread s thread) ∧ Retains .nothing s (withThread s thread) := by
  have same {n : Node} (bound : n < s.fresh) : (withThread s thread).thread n = s.thread n :=
    Function.update_of_ne bound.ne ..
  refine ⟨⟨?_, ?_, ?_⟩, ⟨Nat.le_succ _, fun _ _ => rfl, fun n bound => same bound, fun _ _ => rfl,
    fun _ _ => rfl,
    fun _ member _ => member, fun _ _ _ member _ => member, fun _ _ _ member _ => member⟩⟩
  · intro e member
    obtain ⟨ofPid, bound⟩ := consistent.process e member
    exact ⟨ofPid, Nat.lt_succ_of_lt bound⟩
  · intro p e member
    obtain ⟨known, bound, ownerBound⟩ := consistent.thread p e member
    exact ⟨(same bound).trans known, Nat.lt_succ_of_lt bound, Nat.lt_succ_of_lt ownerBound⟩
  · intro p e member
    obtain ⟨owner, known, bound, ownerBound⟩ := consistent.injection p e member
    exact ⟨owner, known, Nat.lt_succ_of_lt bound, Nat.lt_succ_of_lt ownerBound⟩

private theorem withInjection_does (consistent : Consistent s) (injection : Injection) :
    Consistent (withInjection s injection) ∧ Retains .nothing s (withInjection s injection) := by
  have same {n : Node} (bound : n < s.fresh) : (withInjection s injection).injection n = s.injection n :=
    Function.update_of_ne bound.ne ..
  refine ⟨⟨?_, ?_, ?_⟩, ⟨Nat.le_succ _, fun _ _ => rfl, fun _ _ => rfl,
    fun n bound => by rw [same bound],
    fun n bound => by rw [same bound], fun _ member _ => member, fun _ _ _ member _ => member,
    fun _ _ _ member _ => member⟩⟩
  · intro e member
    obtain ⟨ofPid, bound⟩ := consistent.process e member
    exact ⟨ofPid, Nat.lt_succ_of_lt bound⟩
  · intro p e member
    obtain ⟨known, bound, ownerBound⟩ := consistent.thread p e member
    exact ⟨known, Nat.lt_succ_of_lt bound, Nat.lt_succ_of_lt ownerBound⟩
  · intro p e member
    obtain ⟨owner, known, bound, ownerBound⟩ := consistent.injection p e member
    rw [same bound]
    exact ⟨owner, known, Nat.lt_succ_of_lt bound, Nat.lt_succ_of_lt ownerBound⟩

theorem processCreate_does (consistent : Consistent s) (pid : Pid) :
    Does .nothing s (processCreate s pid) where
  steady := bind_steady (treeInsert_steady _ _ _) fun _ _ failed => by cases failed
  ran := by
    intro s' ran
    obtain ⟨processes, inserted, ran⟩ := bind_ok ran
    cases ran
    have known := inserted_of_ok inserted
    have same {α : Type} {n : Node} (bound : n < s.fresh) (field : Process → α) :
        field (Function.update s.process s.fresh ⟨pid, OrderedTree.empty, OrderedTree.empty⟩ n) =
          field (s.process n) :=
      congrArg field (Function.update_of_ne bound.ne ..)
    refine ⟨⟨?_, ?_, ?_⟩, ⟨Nat.le_succ _, ?_, fun _ _ => rfl, fun _ _ => rfl,
      fun _ _ => rfl, ?_, ?_, ?_⟩⟩
    · intro e member
      rcases (known e).mp member with rfl | before
      · have new : Function.update s.process s.fresh ⟨pid, OrderedTree.empty, OrderedTree.empty⟩
            s.fresh = _ :=
          Function.update_self ..
        exact ⟨congrArg Process.pid new, Nat.lt_succ_self _⟩
      · obtain ⟨ofPid, bound⟩ := consistent.process e before
        exact ⟨(same bound Process.pid).trans ofPid, Nat.lt_succ_of_lt bound⟩
    · intro p e member
      have member : e ∈ (Function.update s.process s.fresh ⟨pid, OrderedTree.empty,
          OrderedTree.empty⟩ p).threads.entries :=
        member
      rw [Function.update_apply] at member
      split at member
      · cases member
      · obtain ⟨same, bound, ownerBound⟩ := consistent.thread p e member
        exact ⟨same, Nat.lt_succ_of_lt bound, Nat.lt_succ_of_lt ownerBound⟩
    · intro p e member
      have member : e ∈ (Function.update s.process s.fresh ⟨pid, OrderedTree.empty,
          OrderedTree.empty⟩ p).injections.entries :=
        member
      rw [Function.update_apply] at member
      split at member
      · cases member
      · obtain ⟨owner, same, bound, ownerBound⟩ := consistent.injection p e member
        exact ⟨owner, same, Nat.lt_succ_of_lt bound, Nat.lt_succ_of_lt ownerBound⟩
    · exact fun n bound => same bound Process.pid
    · exact fun e member _ => (known e).mpr (.inr member)
    · exact fun p bound e member _ => (same bound fun process => e ∈ process.threads.entries).mpr member
    · exact fun p bound e member _ =>
        (same bound fun process => e ∈ process.injections.entries).mpr member

theorem threadCreate_does (consistent : Consistent s) (known : p < s.fresh) (pid : Pid) :
    Does .nothing s (threadCreate s p pid) where
  steady := bind_steady (treeInsert_steady _ _ _) fun _ _ =>
    bind_steady (treeInsert_steady _ _ _) fun _ _ failed => by
    cases failed
  ran := by
    intro s' ran
    obtain ⟨threads, -, ran⟩ := bind_ok ran
    obtain ⟨own, inserted, ran⟩ := bind_ok ran
    cases ran
    have added := inserted_of_ok inserted
    obtain ⟨between, retains⟩ := withThread_does consistent ⟨pid, p⟩
    have placed (e : Pid × Node) (member : e ∈ own.entries) :
        (withThread s ⟨pid, p⟩).thread e.2 = ⟨e.1, p⟩ ∧ e.2 < s.fresh + 1 ∧ p < s.fresh + 1 := by
      rcases (added e).mp member with rfl | before
      · exact ⟨Function.update_self .., Nat.lt_succ_self _, Nat.lt_succ_of_lt known⟩
      · exact between.thread p e before
    obtain ⟨final, later⟩ := setThreads_does between .nothing placed (fun e member _ =>
      (added e).mpr (.inr member)) threads
    exact ⟨final, retains.trans later⟩

theorem injectionCreate_does (consistent : Consistent s) (known : p < s.fresh) (x : Pointer) :
    Does .nothing s (injectionCreate s p x) where
  steady := bind_steady (treeInsert_steady _ _ _) fun _ _ failed => by cases failed
  ran := by
    intro s' ran
    obtain ⟨own, inserted, ran⟩ := bind_ok ran
    cases ran
    have added := inserted_of_ok inserted
    obtain ⟨between, retains⟩ := withInjection_does consistent ⟨p, x, 0⟩
    have new : (withInjection s ⟨p, x, 0⟩).injection s.fresh = ⟨p, x, 0⟩ := Function.update_self ..
    have placed (e : Pointer × Node) (member : e ∈ own.entries) :
        ((withInjection s ⟨p, x, 0⟩).injection e.2).process = p ∧
          ((withInjection s ⟨p, x, 0⟩).injection e.2).injectable = e.1 ∧ e.2 < s.fresh + 1 ∧
          p < s.fresh + 1 := by
      rcases (added e).mp member with rfl | before
      · rw [new]
        exact ⟨rfl, rfl, Nat.lt_succ_self _, Nat.lt_succ_of_lt known⟩
      · exact between.injection p e before
    obtain ⟨final, later⟩ := setInjections_does between .nothing placed fun e member _ =>
      (added e).mpr (.inr member)
    exact ⟨final, retains.trans later⟩

private theorem does_of_error (different : fault ≠ .dangling) : Does lost s (.error fault) where
  steady := fun failed => different (Except.error.inj failed)
  ran := fun _ ran => by cases ran

theorem threadCloneCreateChild_does (consistent : Consistent s) (child tgid ppid : Pid) :
    Does .nothing s (threadCloneCreateChild s child tgid ppid) := by
  simp only [threadCloneCreateChild]
  split
  · rename_i p found
    exact threadCreate_does consistent
      (consistent.process _ (OrderedTree.get_eq_some_iff.mp found)).2 child
  · split
    · exact does_of_error (by simp)
    · have forks := processCreate_does consistent child
      have known (forked : Server) (ran : processCreate s child = .ok forked) :
          s.fresh < forked.fresh := by
        obtain ⟨processes, -, ran⟩ := bind_ok ran
        cases ran
        exact Nat.lt_succ_self _
      refine ⟨bind_steady forks.steady fun forked ran => ?_, fun s' ran => ?_⟩
      · exact (threadCreate_does (forks.ran forked ran).1 (known forked ran) child).steady
      · obtain ⟨forked, ran, later⟩ := bind_ok ran
        obtain ⟨between, retains⟩ := forks.ran forked ran
        obtain ⟨final, retainsLater⟩ := (threadCreate_does between (known forked ran) child).ran s' later
        exact ⟨final, retains.trans retainsLater⟩

private theorem does_nothing (consistent : Consistent s) : Does lost s (.ok s) where
  steady := by simp
  ran := by
    intro s' ran
    cases ran
    exact ⟨consistent, le_rfl, fun _ _ => rfl, fun _ _ => rfl, fun _ _ => rfl, fun _ _ => rfl,
      fun _ member _ => member,
      fun _ _ _ member _ => member, fun _ _ _ member _ => member⟩

theorem threadHandleCloneParent_does (consistent : Consistent s) (child tgid ppid : Pid) :
    Does .nothing s (threadHandleCloneParent s child tgid ppid) := by
  simp only [threadHandleCloneParent]
  split
  · exact does_nothing consistent
  · exact threadCloneCreateChild_does consistent child tgid ppid

theorem uninject_does (consistent : Consistent s) (i : Node) :
    Does (.ofInjection (s.injection i).process (s.injection i).injectable) s (uninject env s i) := by
  simp only [uninject]
  split
  · exact does_of_error (by simp)
  · exact injectionFree_does consistent i

theorem uninjectAdbi_does (env : Env) (consistent : Consistent s) (t : Node) :
    ∃ lost, Does lost s (uninjectAdbi env s t) ∧ lost.process = Loss.nothing.process := by
  simp only [uninjectAdbi]
  split
  · exact ⟨.nothing, does_of_error (by simp), rfl⟩
  · split
    · exact ⟨_, injectionFree_does consistent _, rfl⟩
    · exact ⟨.nothing, does_of_error (by simp), rfl⟩

theorem exitOther_does (consistent : Consistent s) (t other : Node) :
    Does (.ofThread (s.thread other)) s (exitOther s t other) := by
  simp only [exitOther]
  split
  · exact does_nothing consistent
  · exact threadDel_does consistent other

end Adbi.IterationTreesProofs
