import Adbi.IterationTreesProofs

/-! When the loops over processes, threads and injections survive what their
bodies do. The body of `process_iter` is about one process, so it removes no
node but the one that the loop is at. The bodies of `thread_iter` and
`injection_detach` remove other nodes in one case each: where an exec is
reported while a thread is stopped or killed, and where a removed handler gives
back the last reference to a library. -/
namespace Adbi.IterationProofs
open Adbi.Lib Adbi.Iteration Adbi.IterationTreesProofs
open Adbi.Linking (Pointer)

variable {s s' : Server} {p t i : Node} {x : Pointer}

/-! ## The loops that are under way -/

/-- A loop is at a node that it found in its tree, and what it saved is there. -/
def Held (s : Server) : Loop → Prop
  | .processIter walk => walk.Safe s.processes ∧ (s.process walk.node).pid = walk.key ∧
  walk.node < s.fresh
  | .threadIter p _ walk | .threadExec p _ walk =>
    walk.Safe (s.process p).threads ∧ s.thread walk.node = ⟨walk.key, p⟩ ∧
      walk.node < s.fresh ∧ p < s.fresh
  | .injectionDetach p _ walk => walk.Safe (s.process p).injections ∧ p < s.fresh
  | .injectionDetachSingle p _ x i _ =>
    (s.injection i).process = p ∧ (s.injection i).injectable = x ∧ i < s.fresh ∧ p < s.fresh

/-- What a loop saved is not among the nodes that are lost. -/
def Spared (lost : Loss) : Loop → Prop
  | .processIter walk => ∀ e ∈ walk.saved, ¬lost.process e.1
  | .threadIter p _ walk | .threadExec p _ walk => ∀ e ∈ walk.saved, ¬lost.thread p e.1
  | .injectionDetach p _ walk => ∀ e ∈ walk.saved, ¬lost.injection p e.1
  | .injectionDetachSingle _ _ _ _ _ => True

/-- What the loop `inner` in the body of `outer` may do to the tree of `outer`.
The body of `process_iter` is about one process and has no `process_iter` in it,
and in the body of `thread_iter` there are only looks, unless there is nothing
left to come back to. The injections that `injection_detach_single` is about are
not the next one of `injection_detach`. -/
def Nests : Loop → Loop → Prop
  | .processIter _, _ => False
  | inner, .processIter walk => inner.process = walk.node
  | .threadIter _ callback _, _ => callback = .look
  | .threadExec _ _ _, .threadIter _ _ walk => walk.saved = none
  | .threadExec _ _ _, _ => False
  | .injectionDetach _ _ _, _ => False
  | .injectionDetachSingle _ _ x _ _, .injectionDetach _ _ walk => ∀ e ∈ walk.saved, e.1 ≠ x
  | .injectionDetachSingle _ _ _ _ _, .injectionDetachSingle _ _ _ _ _ => True
  | .injectionDetachSingle _ _ _ _ _, _ => False

/-- The invariant. -/
structure Good (c : Config) : Prop where
  consistent : Consistent c.server
  held : ∀ loop ∈ c.loops, Held c.server loop
  nested : c.loops.Pairwise Nests

variable {c c' : Config} {loop : Loop} {loops below : List Loop} {lost : Loss}

/-- A loop survives an operation that spares what it saved. -/
theorem Held.retained (held : Held s loop) (retains : Retains lost s s')
    (spared : Spared lost loop) : Held s' loop := by
  cases loop with
  | processIter walk =>
    obtain ⟨safe, ofPid, bound⟩ := held
    refine ⟨safe.mono fun e saved member => retains.processes e member (spared e saved), ?_,
      bound.trans_le retains.fresh⟩
    exact (retains.pid walk.node bound).trans ofPid
  | threadIter p callback walk =>
    obtain ⟨safe, known, bound, ownerBound⟩ := held
    refine ⟨safe.mono fun e saved member => retains.threads p ownerBound e member (spared e saved), ?_,
      bound.trans_le retains.fresh, ownerBound.trans_le retains.fresh⟩
    exact (retains.thread walk.node bound).trans known
  | threadExec p t walk =>
    obtain ⟨safe, known, bound, ownerBound⟩ := held
    refine ⟨safe.mono fun e saved member => retains.threads p ownerBound e member (spared e saved), ?_,
      bound.trans_le retains.fresh, ownerBound.trans_le retains.fresh⟩
    exact (retains.thread walk.node bound).trans known
  | injectionDetach p t walk =>
    obtain ⟨safe, ownerBound⟩ := held
    exact ⟨safe.mono fun e saved member => retains.injections p ownerBound e member (spared e saved),
      ownerBound.trans_le retains.fresh⟩
  | injectionDetachSingle p t x i visits =>
    obtain ⟨owner, known, bound, ownerBound⟩ := held
    exact ⟨(retains.owner i bound).trans owner, (retains.injectable i bound).trans known,
      bound.trans_le retains.fresh,
      ownerBound.trans_le retains.fresh⟩

/-- An operation that spares what every loop saved keeps the invariant. -/
theorem Good.retained (good : Good ⟨s, loops⟩) (consistent : Consistent s') (retains : Retains lost s s')
    (spared : ∀ loop ∈ loops, Spared lost loop) : Good ⟨s', loops⟩ :=
  ⟨consistent, fun loop member => (good.held loop member).retained retains (spared loop member),
    good.nested⟩

private theorem spared_of_nothing (loop : Loop) : Spared .nothing loop := by
  cases loop with
  | processIter walk => exact fun _ _ => not_false
  | threadIter p callback walk => exact fun _ _ => not_false
  | threadExec p t walk => exact fun _ _ => not_false
  | injectionDetach p t walk => exact fun _ _ => not_false
  | injectionDetachSingle p t x i visits => trivial

/-- A new innermost loop. -/
theorem Good.push (good : Good ⟨s, loops⟩) (held : Held s loop)
    (nests : ∀ outer ∈ loops, Nests loop outer) :
    Good ⟨s, loop :: loops⟩ where
  consistent := good.consistent
  held := List.forall_mem_cons.mpr ⟨held, good.held⟩
  nested := List.pairwise_cons.mpr ⟨nests, good.nested⟩

/-- The innermost loop ends. -/
theorem Good.pop (good : Good ⟨s, loop :: loops⟩) : Good ⟨s, loops⟩ where
  consistent := good.consistent
  held := (List.forall_mem_cons.mp good.held).2
  nested := (List.pairwise_cons.mp good.nested).2

theorem Good.top (good : Good ⟨s, loop :: loops⟩) : Held s loop := good.held loop List.mem_cons_self

theorem Good.nests (good : Good ⟨s, loop :: loops⟩) : ∀ outer ∈ loops, Nests loop outer :=
  (List.pairwise_cons.mp good.nested).1

/-- Where work on a process begins, the process exists and only `process_iter`
is under way, at that process. -/
theorem works_cases (good : Good c) (works : c.Works p) :
    p < c.server.fresh ∧ ∀ outer ∈ c.loops, ∃ walk, outer = .processIter walk ∧ p = walk.node := by
  obtain ⟨s, loops⟩ := c
  match loops with
  | [] =>
    exact ⟨(good.consistent.process _ (OrderedTree.get_eq_some_iff.mp works)).2,
      fun _ member => by cases member⟩
  | .processIter walk :: below =>
    have here : p = walk.node := works
    refine ⟨here ▸ good.top.2.2, List.forall_mem_cons.mpr ⟨⟨walk, rfl, here⟩, fun outer member => ?_⟩⟩
    exact (good.nests outer member).elim

/-- Where only `process_iter` is under way, only the processes matter. -/
private theorem spared_of_works (only : ∀ pid, ¬lost.process pid)
    (outside : ∀ outer ∈ loops, ∃ walk, outer = .processIter walk ∧ p = walk.node) :
    ∀ loop ∈ loops, Spared lost loop := by
  intro loop member
  obtain ⟨walk, rfl, -⟩ := outside loop member
  exact fun e _ => only e.1

/-- A loop of `thread_iter` with a body that removes its thread is in
`process_iter` at most. -/
private theorem outside_threads (nests : Nests (.threadIter p callback walk) outer)
    (notLook : callback ≠ .look) :
    ∃ walk, outer = .processIter walk ∧ p = walk.node := by
  cases outer with
  | processIter outerWalk => exact ⟨outerWalk, rfl, nests⟩
  | threadIter q other outerWalk => exact (notLook nests).elim
  | threadExec q u outerWalk => exact (notLook nests).elim
  | injectionDetach q u outerWalk => exact (notLook nests).elim
  | injectionDetachSingle q u x i visits => exact (notLook nests).elim

private theorem outside_injections (nests : Nests (.injectionDetach p t walk) outer) :
    ∃ walk, outer = .processIter walk ∧ p = walk.node := by
  cases outer with
  | processIter outerWalk => exact ⟨outerWalk, rfl, nests⟩
  | threadIter q other outerWalk => exact nests.elim
  | threadExec q u outerWalk => exact nests.elim
  | injectionDetach q u outerWalk => exact nests.elim
  | injectionDetachSingle q u x i visits => exact nests.elim

/-- The loop of `thread_exec` runs where nothing else is left to be done. -/
private theorem spared_of_exec (nests : Nests (.threadExec p t walk) outer)
    (only : ∀ pid, ¬lost.process pid) :
    Spared lost outer := by
  cases outer with
  | processIter outerWalk => exact fun e _ => only e.1
  | threadIter q callback outerWalk =>
    intro e saved
    have nothing : outerWalk.saved = none := nests
    rw [nothing] at saved
    cases saved
  | threadExec q u outerWalk => exact nests.elim
  | injectionDetach q u outerWalk => exact nests.elim
  | injectionDetachSingle q u x i visits => exact nests.elim

/-- Inside `injection_detach_single` no loop over threads is interrupted. -/
private theorem spared_of_single (nests : Nests (.injectionDetachSingle p t x i visits) outer)
    (only : ∀ pid, ¬lost.process pid) (other : ∀ q k, lost.injection q k → k = x) :
    Spared lost outer := by
  cases outer with
  | processIter outerWalk => exact fun e _ => only e.1
  | threadIter q callback outerWalk => exact nests.elim
  | threadExec q u outerWalk => exact nests.elim
  | injectionDetach q u outerWalk => exact fun e saved gone => nests e saved (other q e.1 gone)
  | injectionDetachSingle q u y j rest => trivial

/-- The body of `thread_iter` may lose the thread that the loop is at. -/
theorem spared_of_body (good : Good ⟨s, .threadIter p callback walk :: below⟩)
    (notLook : callback ≠ .look) :
    ∀ loop ∈ Loop.threadIter p callback walk :: below, Spared (.ofThread (s.thread walk.node)) loop := by
  obtain ⟨safe, known, -⟩ := good.top
  refine List.forall_mem_cons.mpr ⟨?_, spared_of_works (fun _ => not_false) fun outer member =>
    outside_threads (good.nests outer member) notLook⟩
  rw [known]
  exact fun e saved gone => safe.current_spared e saved gone.2

/-- Wherever the server waits for a thread, the thread may end. -/
theorem spared_of_waits (good : Good c) (waits : c.WaitsFor t) :
    ∀ loop ∈ c.loops, Spared (.ofThread (c.server.thread t)) loop := by
  obtain ⟨s, loops⟩ := c
  match loops with
  | [] => exact fun _ member => by cases member
  | .processIter walk :: below =>
    exact List.forall_mem_cons.mpr ⟨fun _ _ => not_false,
      fun outer member => (good.nests outer member).elim⟩
  | .threadIter p callback walk :: below =>
    obtain ⟨waiting, same⟩ : (callback = .stop ∨ callback = .kill) ∧ t = walk.node := waits
    rw [same]
    refine spared_of_body good fun look => ?_
    rw [look] at waiting
    simp at waiting
  | .threadExec _ _ _ :: _ => exact waits.elim
  | .injectionDetach p u walk :: below =>
    exact List.forall_mem_cons.mpr ⟨fun _ _ => not_false,
      spared_of_works (fun _ => not_false) fun outer member =>
      outside_injections (good.nests outer member)⟩
  | .injectionDetachSingle p u x i visits :: below =>
    exact List.forall_mem_cons.mpr ⟨trivial, fun outer member =>
      spared_of_single (good.nests outer member) (fun _ => not_false) fun _ _ gone => gone.elim⟩

/-- The process that a loop is about may go: it is what `process_iter` is at. -/
theorem spared_of_drops (good : Good c) (drops : c.Drops p) :
    ∀ loop ∈ c.loops, Spared (.ofProcess (c.server.process p).pid) loop := by
  obtain ⟨s, loops⟩ := c
  have current {outer : Loop} (held : Held s outer) (about : ∀ walk, outer = .processIter walk →
      p = walk.node) :
      Spared (.ofProcess (s.process p).pid) outer := by
    cases outer with
    | processIter walk =>
      obtain ⟨safe, ofPid, -⟩ := held
      rw [about walk rfl, ofPid]
      exact safe.current_spared
    | threadIter q callback walk => exact fun _ _ => not_false
    | threadExec q u walk => exact fun _ _ => not_false
    | injectionDetach q u walk => exact fun _ _ => not_false
    | injectionDetachSingle q u x i visits => trivial
  match loops with
  | [] => exact fun _ member => by cases member
  | inner :: below =>
    obtain ⟨about, -⟩ : p = inner.process ∧ _ := drops
    refine List.forall_mem_cons.mpr ⟨current good.top fun walk same => ?_, fun outer member =>
      current (good.pop.held outer member) fun walk same => ?_⟩
    · rw [about, same]
      rfl
    · have nests := good.nests outer member
      rw [same] at nests
      cases inner with
      | processIter _ => exact nests.elim
      | threadIter _ _ _ => exact about.trans nests
      | threadExec _ _ _ => exact about.trans nests
      | injectionDetach _ _ _ => exact about.trans nests
      | injectionDetachSingle _ _ _ _ _ => exact about.trans nests

/-- `uninject_dependencies` makes its next call. -/
private theorem Good.visited (good : Good ⟨s, .injectionDetachSingle p t x i visits :: below⟩)
    (rest : List Pointer) :
    Good ⟨s, .injectionDetachSingle p t x i rest :: below⟩ := by
  refine good.pop.push good.top fun outer member => ?_
  have nests := good.nests outer member
  cases outer <;> exact nests

/-- In the body of `thread_iter` it does not matter which thread the body is about. -/
private theorem nests_anywhere (nests : Nests (.threadIter p callback walk) outer) :
    Nests (.threadIter p callback walk') outer := by
  cases outer <;> exact nests

private theorem exec_nests_anywhere (nests : Nests (.threadExec p t walk) outer) :
    Nests (.threadExec p t walk') outer := by
  cases outer <;> exact nests

/-- The next injection of `injection_detach`. -/
def savedInjection : Loop → Option Pointer
  | .injectionDetach _ _ walk => walk.saved.map (·.1)
  | _ => none

/-- Which steps are harmless. An exec is not reported in the body of
`thread_iter` while a thread is left to come to, and the library that
`injection_detach` comes to next does not lose its last reference. -/
def Admitted (env : Env) (c : Config) : Action → Prop
  | .report _ .execed =>
    match c.loops with
    | .threadIter _ _ walk :: _ => walk.saved = none
    | _ => True
  | .goOn =>
    match c.loops with
    | .injectionDetachSingle p _ _ _ (visit :: _) :: below =>
      ∀ i, (c.server.process p).injections.get visit = some i → (c.server.injection i).references = 1 →
        visit ≠ env.adbi → ∀ outer ∈ below, savedInjection outer ≠ some visit
    | _ => True
  | _ => True

/-! ## The steps -/

/-- A step that goes well: it gets to no node that is gone and keeps the invariant. -/
structure Goes (result : Except Fault Config) : Prop where
  steady : result ≠ .error .dangling
  good : ∀ c, result = .ok c → Good c

private theorem goes_of_error (different : fault ≠ .dangling) : Goes (.error fault) where
  steady := fun failed => different (Except.error.inj failed)
  good := fun _ ran => by cases ran

private theorem goes_of_good (good : Good c) : Goes (.ok c) where
  steady := by simp
  good := by
    intro c' ran
    cases ran
    exact good

/-- An operation on the server that spares what the loops saved. -/
private theorem goes_of_does (good : Good ⟨s, loops⟩) (does : Does lost s result)
    (spared : ∀ loop ∈ loops, Spared lost loop) :
    Goes (result >>= fun server => .ok ⟨server, loops⟩) where
  steady := bind_steady does.steady fun _ _ failed => by cases failed
  good := by
    intro c' ran
    obtain ⟨s', ok, ran⟩ := bind_ok ran
    cases ran
    obtain ⟨consistent, retains⟩ := does.ran s' ok
    exact good.retained consistent retains spared

private theorem goes_onlyWhen {possible : Prop} [Decidable possible] {result : Except Fault Config}
    (goes : possible → Goes result) : Goes (onlyWhen possible result) := by
  simp only [onlyWhen]
  split
  · rename_i holds
    exact goes holds
  · exact goes_of_error (by simp)

section
variable {env : Env}

private theorem injectionDetachSingle_goes (good : Good c) (bound : i < c.server.fresh)
    (ownerBound : (c.server.injection i).process < c.server.fresh)
    (nests : ∀ visits, ∀ outer ∈ c.loops,
      Nests (.injectionDetachSingle (c.server.injection i).process t
        (c.server.injection i).injectable i visits) outer) :
    Goes (Iteration.injectionDetachSingle env c t i) := by
  simp only [Iteration.injectionDetachSingle]
  split
  · exact goes_of_error (by simp)
  · split
    · exact goes_of_error (by simp)
    · rename_i calls _
      have held : Held c.server (.injectionDetachSingle (c.server.injection i).process t
          (c.server.injection i).injectable i
          calls.dependencies) := ⟨rfl, rfl, bound, ownerBound⟩
      exact goes_of_good (good.push held (nests calls.dependencies))

/-- `injection_detach` gets to a node and begins to remove it. -/
private theorem enterInjection_goes (good : Good ⟨s, loops⟩) (bound : p < s.fresh)
    (outside : ∀ outer ∈ loops, ∃ walk, outer = .processIter walk ∧ p = walk.node)
    {next : Option (Walk Pointer)}
    (there : ∀ walk ∈ next, (walk.key, walk.node) ∈ (s.process p).injections.entries ∧
      walk.Safe (s.process p).injections) :
    Goes (enterInjection env ⟨s, loops⟩ p t next) := by
  cases next with
  | none => exact goes_of_good good
  | some walk =>
    obtain ⟨member, safe⟩ := there walk rfl
    obtain ⟨owner, injectable, known, -⟩ := good.consistent.injection p _ member
    have nests : ∀ outer ∈ loops, Nests (.injectionDetach p t walk) outer := by
      intro outer outerMember
      obtain ⟨outerWalk, rfl, same⟩ := outside outer outerMember
      exact same
    have entered : Good ⟨s, .injectionDetach p t walk :: loops⟩ := good.push ⟨safe, bound⟩ nests
    simp only [enterInjection]
    split
    · exact goes_of_good entered
    · refine injectionDetachSingle_goes entered known (owner ▸ bound) fun visits => ?_
      refine List.forall_mem_cons.mpr ⟨?_, fun outer outerMember => ?_⟩
      · have removed : (s.injection walk.node).injectable = walk.key := injectable
        exact fun e saved same => safe.current_spared e saved (same.trans removed)
      · obtain ⟨outerWalk, rfl, same⟩ := outside outer outerMember
        exact owner.trans same

/-- The loop of `thread_exec` gets to a thread, or ends and forgets the injections. -/
private theorem enterExec_good (good : Good ⟨s, loops⟩) {next : Option (Walk Pid)}
    (there : ∀ walk ∈ next, (walk.key, walk.node) ∈ (s.process p).threads.entries ∧
      walk.Safe (s.process p).threads)
    (nests : ∀ walk, ∀ outer ∈ loops, Nests (.threadExec p t walk) outer) :
    Good (enterExec ⟨s, loops⟩ p t next) := by
  cases next with
  | none =>
    obtain ⟨consistent, retains⟩ := injectionReset_does good.consistent p
    exact good.retained consistent retains fun outer member =>
      spared_of_exec (nests ⟨0, 0, none⟩ outer member) fun _ => not_false
  | some walk =>
    obtain ⟨member, safe⟩ := there walk rfl
    obtain ⟨known, bound, ownerBound⟩ := good.consistent.thread p _ member
    exact good.push ⟨safe, known, bound, ownerBound⟩ (nests walk)

private theorem depUninject_goes (good : Good ⟨s, .injectionDetachSingle p t y j visits :: below⟩)
    (admitted : ∀ i, (s.process p).injections.get x = some i → (s.injection i).references = 1 →
      x ≠ env.adbi →
      ∀ outer ∈ below, savedInjection outer ≠ some x) :
    Goes (depUninject env ⟨s, .injectionDetachSingle p t y j visits :: below⟩ p t x) := by
  simp only [depUninject]
  split
  · exact goes_of_error (by simp)
  · rename_i i found
    obtain ⟨owner, injectable, known, ownerBound⟩ :=
      good.consistent.injection p _ (OrderedTree.get_eq_some_iff.mp found)
    obtain ⟨consistent, retains⟩ := setReferences_does good.consistent i ((s.injection i).references - 1)
    have counted := good.retained consistent retains fun loop _ => spared_of_nothing loop
    split
    · rename_i last
      have owner' := (retains.owner i known).trans owner
      have injectable' := (retains.injectable i known).trans injectable
      refine injectionDetachSingle_goes counted known (owner' ▸ ownerBound) fun rest => ?_
      refine List.forall_mem_cons.mpr ⟨trivial, fun outer member => ?_⟩
      have nests := good.nests outer member
      cases outer with
      | processIter walk => exact owner'.trans nests
      | threadIter q callback walk => exact nests.elim
      | threadExec q u walk => exact nests.elim
      | injectionDetach q u walk =>
        -- the library goes now, so the loop must not have saved it
        have one : (s.injection i).references = 1 := by bv_omega
        intro e saved same
        refine admitted i found one last.2 _ member ?_
        have named : e.1 = x := same.trans injectable'
        exact Option.map_eq_some_iff.mpr ⟨e, saved, named⟩
      | injectionDetachSingle q u z k later => trivial
    · exact goes_of_good counted

/-- The innermost loop goes on, or ends. -/
private theorem goOn_goes (good : Good c) (admitted : Admitted env c .goOn) : Goes (goOn env c) := by
  obtain ⟨s, loops⟩ := c
  match loops with
  | [] => exact goes_of_error (by simp)
  | .processIter walk :: below =>
    obtain ⟨next, stepped⟩ := good.top.1.advance_ok Fault.dangling
    simp only [goOn, stepped]
    cases next with
    | none => exact goes_of_good good.pop
    | some v =>
      obtain ⟨member, safe⟩ := Walk.advanced stepped
      obtain ⟨ofPid, bound⟩ := good.consistent.process _ member
      exact goes_of_good (good.pop.push ⟨safe, ofPid, bound⟩ fun outer outerMember =>
        (good.nests outer outerMember).elim)
  | .threadIter p callback walk :: below =>
    obtain ⟨next, stepped⟩ := good.top.1.advance_ok Fault.dangling
    simp only [goOn, stepped]
    cases next with
    | none => exact goes_of_good good.pop
    | some v =>
      obtain ⟨member, safe⟩ := Walk.advanced stepped
      obtain ⟨known, bound, ownerBound⟩ := good.consistent.thread p _ member
      exact goes_of_good (good.pop.push ⟨safe, known, bound, ownerBound⟩ fun outer outerMember =>
        nests_anywhere (good.nests outer outerMember))
  | .threadExec p t walk :: below =>
    have exits := exitOther_does good.consistent t walk.node
    obtain ⟨safe, known, -⟩ := good.top
    have spared : ∀ loop ∈ Loop.threadExec p t walk :: below,
        Spared (.ofThread (s.thread walk.node)) loop := by
      refine List.forall_mem_cons.mpr ⟨?_,
        fun outer member => spared_of_exec (good.nests outer member) fun _ => not_false⟩
      rw [known]
      exact fun e saved gone => safe.current_spared e saved gone.2
    have between (server : Server) (exited : exitOther s t walk.node = .ok server) :
        Good ⟨server, .threadExec p t walk :: below⟩ := by
      obtain ⟨consistent, retains⟩ := exits.ran server exited
      exact good.retained consistent retains spared
    refine ⟨bind_steady exits.steady fun server exited => ?_, fun c' ran => ?_⟩
    · obtain ⟨next, stepped⟩ := (between server exited).top.1.advance_ok Fault.dangling
      rw [stepped]
      simp [bind, Except.bind, pure, Except.pure]
    · obtain ⟨server, exited, ran⟩ := bind_ok ran
      obtain ⟨next, stepped, ran⟩ := bind_ok ran
      cases ran
      refine enterExec_good (between server exited).pop ?_ fun v outer member =>
        exec_nests_anywhere (good.nests outer member)
      rintro v rfl
      exact Walk.advanced stepped
  | .injectionDetach p t walk :: below =>
    obtain ⟨next, stepped⟩ := good.top.1.advance_ok Fault.dangling
    simp only [goOn, stepped]
    refine enterInjection_goes good.pop good.top.2 (fun outer member =>
      outside_injections (good.nests outer member)) ?_
    rintro v rfl
    exact Walk.advanced stepped
  | .injectionDetachSingle p t x i (visit :: visits) :: below =>
    exact depUninject_goes (good.visited visits) admitted
  | .injectionDetachSingle p t x i [] :: below =>
    obtain ⟨owner, injectable, -⟩ := good.top
    refine goes_of_does good.pop (uninject_does good.consistent i) fun outer member => ?_
    rw [owner, injectable]
    exact spared_of_single (good.nests outer member) (fun _ => not_false) fun _ _ gone => gone.2

/-- Where an exec is reported and admitted, the loops leave the other threads alone. -/
private theorem exec_nests (good : Good c) (waits : c.WaitsFor t) (slave : ¬c.Slave)
    (admitted : Admitted env c (.report t .execed)) (walk : Walk Pid) :
    ∀ outer ∈ c.loops, Nests (.threadExec (c.server.thread t).process t walk) outer := by
  obtain ⟨s, loops⟩ := c
  match loops with
  | [] => exact fun _ member => by cases member
  | .processIter v :: below =>
    exact List.forall_mem_cons.mpr ⟨waits, fun outer member => (good.nests outer member).elim⟩
  | .threadIter p callback v :: below =>
    obtain ⟨waiting, rfl⟩ : (callback = .stop ∨ callback = .kill) ∧ t = v.node := waits
    obtain ⟨-, known, -⟩ := good.top
    have nothing : v.saved = none := admitted
    refine List.forall_mem_cons.mpr ⟨nothing, fun outer member => ?_⟩
    obtain ⟨outerWalk, rfl, same⟩ := outside_threads (good.nests outer member) fun look => by
      rw [look] at waiting
      simp at waiting
    exact (congrArg Thread.process known).trans same
  | .threadExec _ _ _ :: _ => exact waits.elim
  | .injectionDetach _ _ _ :: _ => exact (slave trivial).elim
  | .injectionDetachSingle _ _ _ _ _ :: _ => exact (slave trivial).elim

/-- What is reported about a thread that is waited for. -/
private theorem threadHandleStatus_goes (good : Good c) (waits : c.WaitsFor t) (report : Report)
    (admitted : Admitted env c (.report t report)) : Goes (threadHandleStatus c t report) := by
  cases report with
  | exited => exact goes_of_does good (threadDel_does good.consistent t) (spared_of_waits good waits)
  | execed =>
    simp only [threadHandleStatus]
    split
    · exact goes_of_error (by simp)
    · rename_i slave
      refine goes_of_good (enterExec_good good ?_ (exec_nests good waits slave admitted))
      exact fun walk started => ⟨Walk.start_mem started, Walk.start_safe started⟩
  | cloned child tgid ppid =>
    exact goes_of_does good (threadHandleCloneParent_does good.consistent child tgid ppid) fun loop
      _ => spared_of_nothing loop

/-- A loop that begins, unless its tree is empty. -/
private theorem begin_good {κ : Type} (good : Good c) {started : Option (Walk κ)} (loop : Walk κ → Loop)
    (held : ∀ walk ∈ started, Held c.server (loop walk))
    (nests : ∀ walk, ∀ outer ∈ c.loops, Nests (loop walk) outer) :
    Good { c with loops := (started.map loop).toList ++ c.loops } := by
  cases started with
  | none => exact good
  | some walk => exact good.push (held walk rfl) (nests walk)

/-- A look may be taken in any loop about the process. -/
private theorem looks_cases (good : Good c) (looks : c.Looks p) (walk : Walk Pid) :
    ∀ outer ∈ c.loops, Nests (.threadIter p .look walk) outer := by
  obtain ⟨s, loops⟩ := c
  have below {inner : Loop} {rest : List Loop} (good : Good ⟨s, inner :: rest⟩) (about : p =
      inner.process)
      (inside : ∀ v, inner ≠ .processIter v) :
        ∀ outer ∈ inner :: rest, Nests (.threadIter p .look walk) outer := by
    refine List.forall_mem_cons.mpr ⟨?_, fun outer member => ?_⟩
    · cases inner with
      | processIter v => exact (inside v rfl).elim
      | threadIter _ _ _ => rfl
      | threadExec _ _ _ => rfl
      | injectionDetach _ _ _ => rfl
      | injectionDetachSingle _ _ _ _ _ => rfl
    · have nests := good.nests outer member
      cases outer with
      | processIter v =>
        cases inner with
        | processIter w => exact (inside w rfl).elim
        | threadIter _ _ _ => exact about.trans nests
        | threadExec _ _ _ => exact about.trans nests
        | injectionDetach _ _ _ => exact about.trans nests
        | injectionDetachSingle _ _ _ _ _ => exact about.trans nests
      | threadIter _ _ _ => rfl
      | threadExec _ _ _ => rfl
      | injectionDetach _ _ _ => rfl
      | injectionDetachSingle _ _ _ _ _ => rfl
  match loops with
  | [] => exact looks.elim
  | .processIter _ :: _ => exact looks.elim
  | .threadIter _ _ _ :: _ => exact below good looks fun _ => by simp
  | .threadExec _ _ _ :: _ => exact looks.elim
  | .injectionDetach _ _ _ :: _ => exact below good looks fun _ => by simp
  | .injectionDetachSingle _ _ _ _ _ :: _ => exact below good looks fun _ => by simp

/-- Every admitted step goes well. -/
theorem step_goes (good : Good c) (action : Action) (admitted : Admitted env c action) :
    Goes (step env c action) := by
  have unharmed (loop : Loop) (_ : loop ∈ c.loops) : Spared .nothing loop := spared_of_nothing loop
  cases action with
  | processIter =>
    refine goes_onlyWhen fun outside => goes_of_good ?_
    have held : ∀ walk ∈ Walk.start c.server.processes, Held c.server (.processIter walk) := by
      intro walk started
      obtain ⟨ofPid, bound⟩ := good.consistent.process _ (Walk.start_mem started)
      exact ⟨Walk.start_safe started, ofPid, bound⟩
    have begun := begin_good good .processIter held fun _ outer member => by
      rw [outside] at member
      cases member
    rw [outside, List.append_nil] at begun
    exact begun
  | threadIter p callback =>
    refine goes_onlyWhen fun begins =>
      goes_of_good (begin_good good (.threadIter p callback) ?_ fun walk outer member => ?_)
    · intro walk started
      obtain ⟨known, bound, ownerBound⟩ := good.consistent.thread p _ (Walk.start_mem started)
      exact ⟨Walk.start_safe started, known, bound, ownerBound⟩
    · rcases begins with works | ⟨rfl, looks⟩
      · obtain ⟨outerWalk, rfl, same⟩ := (works_cases good works).2 outer member
        exact same
      · exact looks_cases good looks walk outer member
  | injectionDetach t =>
    refine goes_onlyWhen fun works => ?_
    obtain ⟨bound, outside⟩ := works_cases good works
    exact enterInjection_goes good bound outside fun walk started =>
      ⟨Walk.start_mem started, Walk.start_safe started⟩
  | injectionDetachSingle t i =>
    refine goes_onlyWhen fun ⟨works, found⟩ => ?_
    obtain ⟨bound, outside⟩ := works_cases good works
    have known := (good.consistent.injection _ _ (OrderedTree.get_eq_some_iff.mp found)).2.2.1
    refine injectionDetachSingle_goes good known bound fun visits outer member => ?_
    obtain ⟨outerWalk, rfl, same⟩ := outside outer member
    exact same
  | goOn => exact goOn_goes good admitted
  | report t report =>
    exact goes_onlyWhen fun ⟨_, waits⟩ => threadHandleStatus_goes good waits report admitted
  | threadDetach =>
    simp only [step]
    split
    · rename_i p walk below loops
      obtain ⟨s, _⟩ := c
      cases loops
      exact goes_of_does good (threadDel_does good.consistent walk.node) (spared_of_body good (by simp))
    · exact goes_of_error (by simp)
  | processDel p =>
    exact goes_onlyWhen fun drops =>
      goes_of_does good (processDel_does good.consistent p) (spared_of_drops good drops)
  | processCreate pid =>
    exact goes_onlyWhen fun _ => goes_of_does good (processCreate_does good.consistent pid) unharmed
  | threadCreate p pid =>
    refine goes_onlyWhen fun ⟨_, registered⟩ =>
      goes_of_does good (threadCreate_does good.consistent ?_ pid) unharmed
    exact (good.consistent.process _ (OrderedTree.get_eq_some_iff.mp registered)).2
  | cloneChild child tgid ppid =>
    exact goes_onlyWhen fun _ =>
      goes_of_does good (threadCloneCreateChild_does good.consistent child tgid ppid) unharmed
  | injectionCreate p x =>
    refine goes_onlyWhen fun registered =>
      goes_of_does good (injectionCreate_does good.consistent ?_ x) unharmed
    exact (good.consistent.process _ (OrderedTree.get_eq_some_iff.mp registered)).2
  | retain i =>
    obtain ⟨consistent, retains⟩ :=
      setReferences_does good.consistent i ((c.server.injection i).references + 1)
    exact goes_of_good (good.retained consistent retains unharmed)
  | release i =>
    obtain ⟨consistent, retains⟩ :=
      setReferences_does good.consistent i ((c.server.injection i).references - 1)
    exact goes_of_good (good.retained consistent retains unharmed)
  | uninjectAdbi t =>
    refine goes_onlyWhen fun works => ?_
    obtain ⟨lost, does, only⟩ := uninjectAdbi_does env good.consistent t
    exact goes_of_does good does (spared_of_works (fun pid => by rw [only]; exact not_false)
      (works_cases good works).2)

end

/-! ## The runs -/

/-- The node that a loop comes to next is in the tree. -/
def NextInTree (s : Server) : Loop → Prop
  | .processIter walk => ∀ e ∈ walk.saved, e ∈ s.processes.entries
  | .threadIter p _ walk | .threadExec p _ walk => ∀ e ∈ walk.saved, e ∈ (s.process p).threads.entries
  | .injectionDetach p _ walk => ∀ e ∈ walk.saved, e ∈ (s.process p).injections.entries
  | .injectionDetachSingle _ _ _ _ _ => True

private theorem next_in_tree (held : Held s loop) : NextInTree s loop := by
  cases loop with
  | processIter walk => exact fun e saved => (held.1 e saved).1
  | threadIter p callback walk => exact fun e saved => (held.1 e saved).1
  | threadExec p t walk => exact fun e saved => (held.1 e saved).1
  | injectionDetach p t walk => exact fun e saved => (held.1 e saved).1
  | injectionDetachSingle p t x i visits => trivial

private theorem initial_good : Good initial where
  consistent :=
    { process := fun _ member => by cases member
      thread := fun _ _ member => by cases member
      injection := fun _ _ member => by cases member }
  held := fun _ member => by cases member
  nested := .nil

/-- In every run of admitted steps no loop steps to a node that is gone, and
wherever the run gets to, the nodes that the loops come to next are there. -/
theorem guarded_loops_survive (env : Env) (actions : List Action)
    (guarded : Guarded (step env) (Admitted env) initial actions) :
    runAll (step env) initial actions ≠ .error .dangling ∧
      ∀ c, runAll (step env) initial actions = .ok c → ∀ loop ∈ c.loops, NextInTree c.server loop := by
  have kept (c : Config) (action : Action) (c' : Config) (good : Good c)
      (admitted : Admitted env c action)
      (stepped : step env c action = .ok c') : Good c' :=
        (step_goes good action admitted).good c' stepped
  refine ⟨guarded_avoids kept (fun c action good admitted =>
    (step_goes good action admitted).steady) initial_good guarded, ?_⟩
  intro c ran loop member
  exact next_in_tree ((guarded_keeps kept initial_good guarded ran).held loop member)

/-- A handler at 0x2000 that imports from a library at 0x3000. -/
def importing : Env where
  libraries := .singleton 1 0x3000
  bindings := .singleton 2 0x2000
  injfile p :=
    if p = 0x2000 then ⟨[0x2f#8], false, [], [⟨[0x66#8], 0⟩], [], [16]⟩
    else ⟨[], true, [], if p = 0x1000 then [] else [], [⟨[0x66#8], 4⟩], []⟩
  libraries_library := by simp [OrderedTree.singleton]
  bindings_bound := by simp [OrderedTree.singleton]
  adbi := 0x1000

/-- A process with two threads that are being stopped. -/
def stopping : List Action := [.processCreate 100, .threadCreate 0 100, .threadCreate 0 101,
      .threadIter 0 .stop]

/-- An exec that is observed while the last thread is stopped does no harm. -/
theorem last_thread_execs :
    runAll (step importing) initial (stopping ++ [.goOn, .report 2 .execed, .goOn, .goOn]) ≠
      .error .dangling ∧
      ∀ c, runAll (step importing) initial (stopping ++ [.goOn, .report 2 .execed, .goOn, .goOn]) =
        .ok c →
        ∀ loop ∈ c.loops, NextInTree c.server loop := by
  refine guarded_loops_survive importing _ ⟨trivial,
    fun c₁ one => ⟨trivial, fun c₂ two => ⟨trivial, fun c₃ three =>
    ⟨trivial, fun c₄ four => ⟨?_,
      fun c₅ five => ⟨?_, fun c₆ six => ⟨?_, fun c₇ seven => ⟨?_, fun _ _ => trivial⟩⟩⟩⟩⟩⟩⟩⟩
  all_goals cases one; cases two; cases three; cases four
  · exact trivial
  all_goals cases five
  · exact rfl
  all_goals cases six
  · exact trivial
  · cases seven
    exact trivial

/-- While the first thread is stopped an exec is observed, and the second one,
which the loop comes to next, is gone. In the same way a handler goes and takes
the library that the loop comes to next with it. -/
theorem next_is_gone :
    runAll (step importing) initial (stopping ++ [.report 1 .execed, .goOn, .goOn, .goOn]) =
      .error .dangling ∧
      runAll (step importing) initial
        [.processCreate 100, .threadCreate 0 100, .injectionCreate 0 0x1000, .retain 2,
          .injectionCreate 0 0x3000,
          .retain 3, .injectionCreate 0 0x2000, .injectionDetach 1, .goOn, .goOn, .goOn, .goOn, .goOn] =
        .error .dangling := by
  exact ⟨rfl, rfl⟩

end Adbi.IterationProofs
