import Adbi.Lib.Chains
import Adbi.LinkingProofs
import Adbi.Loading

/-! When the recursion of `injectable_iter_dependencies` ends. It visits the
libraries of an injectable in the order of their ids and goes down into each of
them, so that it never comes back exactly when it gets into a cycle. -/
namespace Adbi.TraversalProofs
open Adbi.Lib Adbi.Linking Adbi.LinkingProofs Adbi.Loading
open Relation

variable {s : Loaded} {x d : Pointer} {depth : Nat} {calls : Calls} {failure : Fault}

/-- The libraries that the imports of an injectable stop at, import by import. -/
abbrev librariesOf (s : Loaded) (x : Pointer) : List (Nat × Pointer) := chosen s (s.injfile x).imports

/-- No two imports of an injectable stop at one library. -/
def Apart (s : Loaded) (x : Pointer) : Prop := ((librariesOf s x).map (·.1)).Nodup

/-- No injectable below stops at a library twice, and there is no cycle below. -/
inductive Clean (s : Loaded) : Pointer → Prop
  | intro {y : Pointer} (apart : Apart s y) (below : ∀ node ∈ librariesOf s y, Clean s node.2) :
  Clean s y

/-- The recursion goes down from an injectable into a library: it comes back from
the libraries with lower ids. -/
def Leads (s : Loaded) (x d : Pointer) : Prop :=
  Apart s x ∧ ∃ id, (id, d) ∈ librariesOf s x ∧ ∀ node ∈ librariesOf s x, node.1 < id → Clean s node.2

/-- The recursion ends, with its calls made or at a failed assertion. -/
def Terminates (s : Loaded) (x : Pointer) : Prop :=
  ∃ depth, iterDependencies s depth x ≠ .error .unbounded

/-! ## The loop over the dependencies -/

section Loop
variable {recursion : Pointer → Except Fault Calls} {l : List (Nat × Pointer)}

/-- A loop that comes to its end made all its calls. -/
theorem all_of_loop_ok {final : Calls} (ran : l.foldlM (iterDependency recursion) calls = .ok final) :
    ∀ node ∈ l, ∃ below, recursion node.2 = .ok below := by
  induction l generalizing calls with
  | nil => nofun
  | cons node later ih =>
    rw [List.foldlM_cons] at ran
    obtain ⟨middle, here, rest⟩ := bind_ok ran
    obtain ⟨below, returned, -⟩ := bind_ok here
    intro other member
    rcases List.mem_cons.mp member with rfl | member
    · exact ⟨below, returned⟩
    · exact ih rest other member

/-- A loop fails at the first call that does. -/
theorem first_failure (ran : l.foldlM (iterDependency recursion) calls = .error failure) :
    ∃ before node after, l = before ++ node :: after ∧ recursion node.2 = .error failure ∧
      ∀ earlier ∈ before, ∃ below, recursion earlier.2 = .ok below := by
  induction l generalizing calls with
  | nil => cases ran
  | cons node later ih =>
    rw [List.foldlM_cons] at ran
    rcases bind_error ran with here | ⟨middle, here, rest⟩
    · rcases bind_error here with failed | ⟨below, -, returned⟩
      · exact ⟨[], node, later, rfl, failed, nofun⟩
      · cases returned
    · obtain ⟨before, other, after, rfl, failed, earlier⟩ := ih rest
      obtain ⟨below, returned, -⟩ := bind_ok here
      refine ⟨node :: before, other, after, rfl, failed, fun e member => ?_⟩
      rcases List.mem_cons.mp member with rfl | member
      · exact ⟨below, returned⟩
      · exact earlier e member

end Loop

/-! ## One injectable -/

private theorem resolve_assertion {imports : List Symbol} {res : Resolution}
    (ran : imports.foldlM (resolveImport s) res = .error failure) : failure = .assertion := by
  refine foldlM_error (P := fun failure => failure = .assertion)
    (fun res symbol failure failed => ?_) ran
  unfold resolveImport at failed
  split at failed
  · split at failed
    · cases failed
    · cases failed
      rfl
  · cases failed

/-- The dependencies of an injectable whose imports stop at different libraries, in the order of
their ids. -/
private theorem dependencies_of_apart (apart : Apart s x) :
    ∃ tree unresolved, injectableGetDependencies s x = .ok (tree, unresolved) ∧
    ∀ node, node ∈ tree.entries ↔ node ∈ librariesOf s x := by
  obtain ⟨⟨tree, unresolved⟩, ran⟩ := (dependencies_complete_iff s x).mpr apart
  exact ⟨tree, unresolved, ran, (dependencies_of_ok ran).1⟩

private theorem iter_succ (tree : OrderedTree Nat Pointer) (unresolved : List Symbol)
    (ran : injectableGetDependencies s x = .ok (tree, unresolved)) : iterDependencies s (depth + 1) x =
      tree.entries.foldlM (iterDependency (iterDependencies s depth)) ⟨[],
        unresolved.map (Prod.mk x)⟩ := by
  rw [iterDependencies, ran]
  rfl

/-- What comes back is clean. -/
theorem clean_of_ok (ran : iterDependencies s depth x = .ok calls) : Clean s x := by
  induction depth generalizing x calls with
  | zero => cases ran
  | succ depth ih =>
    obtain ⟨⟨tree, unresolved⟩, resolved, -⟩ := bind_ok ran
    have apart : Apart s x := (dependencies_of_ok resolved).2.2
    refine .intro apart fun node member => ?_
    rw [iter_succ tree unresolved resolved] at ran
    obtain ⟨below, returned⟩ := all_of_loop_ok ran node
      (((dependencies_of_ok resolved).1 node).mpr member)
    exact ih returned

/-- What is clean comes back, or goes on below the depth. -/
theorem clean_result (clean : Clean s x) (depth : Nat) :
    iterDependencies s depth x = .error .unbounded ∨
    ∃ calls, iterDependencies s depth x = .ok calls := by
  induction clean generalizing depth with
  | @intro y apart below ih =>
    cases depth with
    | zero => exact .inl rfl
    | succ depth =>
      obtain ⟨tree, unresolved, resolved, members⟩ := dependencies_of_apart apart
      rw [iter_succ tree unresolved resolved]
      cases ran : tree.entries.foldlM (iterDependency (iterDependencies s depth)) ⟨[],
        unresolved.map (Prod.mk y)⟩ with
      | ok calls => exact .inr ⟨calls, rfl⟩
      | error failure =>
        obtain ⟨before, node, after, split, failed, -⟩ := first_failure ran
        have member : node ∈ librariesOf s y :=
          (members node).mp (split ▸ List.mem_append_right _ List.mem_cons_self)
        rcases ih node member depth with unbounded | ⟨calls, returned⟩
        · cases failed.symm.trans unbounded
          exact .inl rfl
        · cases failed.symm.trans returned

/-! ## Steps of the recursion -/

/-- A recursion that goes on below a depth goes down into some library. -/
theorem leads_of_unbounded (ran : iterDependencies s (depth + 1) x = .error .unbounded) :
    ∃ d, Leads s x d ∧ iterDependencies s depth d = .error .unbounded := by
  rcases bind_error ran with failed | ⟨⟨tree, unresolved⟩, resolved, -⟩
  · cases resolve_assertion failed
  · obtain ⟨members, -, apart⟩ := dependencies_of_ok resolved
    rw [iter_succ tree unresolved resolved] at ran
    obtain ⟨before, node, after, split, failed, earlier⟩ := first_failure ran
    have sorted := tree.sorted
    rw [split] at sorted
    obtain ⟨-, later, -⟩ := List.pairwise_append.mp sorted
    have behind := (List.pairwise_cons.mp later).1
    have here : node ∈ tree.entries := split ▸ List.mem_append_right _ List.mem_cons_self
    refine ⟨node.2, ⟨apart, node.1, (members node).mp here, fun other member lower => ?_⟩, failed⟩
    have listed := (members other).mpr member
    rw [split] at listed
    rcases List.mem_append.mp listed with first | rest
    · obtain ⟨below, returned⟩ := earlier other first
      exact clean_of_ok returned
    · rcases List.mem_cons.mp rest with rfl | rest
      · exact absurd lower (Nat.lt_irrefl _)
      · exact absurd lower (Nat.lt_asymm (behind other rest))

/-- A recursion goes on below a depth, if it does in a library that it goes down into. -/
theorem unbounded_of_leads (leads : Leads s x d)
    (below : iterDependencies s depth d = .error .unbounded) :
    iterDependencies s (depth + 1) x = .error .unbounded := by
  obtain ⟨apart, id, chosenHere, lower⟩ := leads
  obtain ⟨tree, unresolved, resolved, members⟩ := dependencies_of_apart apart
  rw [iter_succ tree unresolved resolved]
  have here : (id, d) ∈ tree.entries := (members _).mpr chosenHere
  cases ran : tree.entries.foldlM (iterDependency (iterDependencies s depth)) ⟨[],
      unresolved.map (Prod.mk x)⟩ with
  | ok calls =>
    obtain ⟨_, returned⟩ := all_of_loop_ok ran _ here
    cases returned.symm.trans below
  | error failure =>
    obtain ⟨before, node, after, split, failed, earlier⟩ := first_failure ran
    have sorted := tree.sorted
    rw [split] at sorted here
    obtain ⟨-, -, crossing⟩ := List.pairwise_append.mp sorted
    rcases List.mem_append.mp here with first | rest
    · obtain ⟨_, returned⟩ := earlier _ first
      cases returned.symm.trans below
    · rcases List.mem_cons.mp rest with same | rest
      · subst same
        cases failed.symm.trans below
        rfl
      · -- the loop fails at a library with a lower id, which is clean
        have order : node.1 < id := (List.pairwise_cons.mp (List.pairwise_append.mp sorted).2.1).1 _ rest
        have listed : node ∈ librariesOf s x :=
          (members node).mp (split ▸ List.mem_append_right _ List.mem_cons_self)
        rcases clean_result (lower node listed order) depth with unbounded | ⟨calls, returned⟩
        · cases failed.symm.trans unbounded
          rfl
        · cases failed.symm.trans returned

/-! ## Cycles -/

/-- A cycle that the recursion gets into. -/
def Cyclic (s : Loaded) (x : Pointer) : Prop := ∃ z, ReflTransGen (Leads s) x z ∧ TransGen (Leads s) z z

/-- A recursion that goes on below a depth has made a walk of that length. -/
theorem walk_of_unbounded (ran : iterDependencies s depth x = .error .unbounded) :
    ∃ p : List Pointer, p.length = depth ∧ (x :: p).IsChain (Leads s) := by
  induction depth generalizing x with
  | zero => exact ⟨[], rfl, .singleton x⟩
  | succ depth ih =>
    obtain ⟨d, leads, below⟩ := leads_of_unbounded ran
    obtain ⟨p, length, walk⟩ := ih below
    exact ⟨d :: p, by rw [List.length_cons, length], .cons_cons leads walk⟩

theorem unbounded_of_cyclic (cyclic : Cyclic s x) (depth : Nat) :
    iterDependencies s depth x = .error .unbounded := by
  induction depth generalizing x with
  | zero => rfl
  | succ depth ih =>
    obtain ⟨d, leads, later⟩ := next_of_cycle cyclic
    exact unbounded_of_leads leads (ih later)

/-- A library that the recursion goes down into is loaded. -/
private theorem library_of_leads (leads : Leads s x d) : d ∈ s.libraries.entries.map (·.2) := by
  obtain ⟨-, id, chosenHere, -⟩ := leads
  obtain ⟨symbol, -, found⟩ := List.mem_filterMap.mp chosenHere
  exact List.mem_map_of_mem (List.mem_of_find?_eq_some found)

private theorem libraries_of_walk {p : List Pointer} (walk : (x :: p).IsChain (Leads s)) :
    ∀ d ∈ p, d ∈ s.libraries.entries.map (·.2) := by
  induction p generalizing x with
  | nil => nofun
  | cons first later ih =>
    obtain ⟨leads, rest⟩ := List.isChain_cons_cons.mp walk
    intro d member
    rcases List.mem_cons.mp member with rfl | member
    · exact library_of_leads leads
    · exact ih rest d member

/-- A recursion deeper than the number of libraries is in a cycle. -/
theorem cyclic_of_unbounded (deep : s.libraries.entries.length < depth)
    (ran : iterDependencies s depth x = .error .unbounded) :
    Cyclic s x := by
  obtain ⟨p, length, walk⟩ := walk_of_unbounded ran
  exact cycle_of_long_walk walk (libraries_of_walk walk) (by rw [List.length_map, length]; exact deep)

/-- The recursion that is stopped one level below the number of libraries never ends. -/
theorem unbounded_iff (s : Loaded) (x : Pointer) :
    injectableIterDependencies s x = .error .unbounded ↔ ¬Terminates s x := by
  constructor
  · intro ran ⟨depth, ended⟩
    exact ended (unbounded_of_cyclic (cyclic_of_unbounded (Nat.lt_succ_self _) ran) depth)
  · intro endless
    by_contra ended
    exact endless ⟨_, ended⟩

/-- The recursion ends exactly when it gets into no cycle. -/
theorem terminates_iff (s : Loaded) (x : Pointer) : Terminates s x ↔ ¬Cyclic s x := by
  constructor
  · rintro ⟨depth, ended⟩ cyclic
    exact ended (unbounded_of_cyclic cyclic depth)
  · intro acyclic
    by_contra endless
    exact acyclic (cyclic_of_unbounded (Nat.lt_succ_self _) ((unbounded_iff s x).mpr endless))

/-- A library that imports the function that it exports. -/
def recursive : Injfile := ⟨[0x6c#8], true, [], [⟨[0x66#8], 0⟩], [⟨[0x66#8], 4⟩], []⟩

/-- It is admitted, and the recursion into it never ends. -/
theorem recursive_endless : ¬∀ server, Admitted server →
    ∀ node ∈ server.injectables.entries, Terminates server.loaded node.2 := by
  intro all
  obtain ⟨server, loaded⟩ : ∃ server,
      injectableLoad Loading.start 0x1000 nofun [0x6c#8] (some recursive) =
        .ok (.loaded server 0x1000) :=
    ⟨_, rfl⟩
  obtain ⟨depth, ended⟩ := all server (.load .start loaded) (1,
    0x1000) (by cases loaded; exact List.mem_singleton_self _)
  refine ended (unbounded_of_cyclic ⟨0x1000, .refl, .single ?_⟩ depth)
  cases loaded
  refine ⟨List.nodup_singleton _, 1, List.mem_singleton_self _, fun node member lower => ?_⟩
  cases List.mem_singleton.mp member
  exact absurd lower (Nat.lt_irrefl _)

end Adbi.TraversalProofs
