import Adbi.InjectionProofs
import Adbi.InstrumentProofs

/-! The reference counts of a segment that has been instrumented. `Instrument`
has an inferior that may fail, and the counts as fields of the injections;
`Injection` has the counts alone. Where `Instrument` comes to its end, its
traversal, its visits and its handlers do to the counts what those of
`Injection` do. -/
namespace Adbi.ReferenceProofs
open Adbi.Lib Adbi.Linking Adbi.Instrument Adbi.InstrumentProofs
open Adbi.Injection (ImportGraph)

variable {env : Env} {g : ImportGraph} {p q : Process} {segments : List Pointer}

/-- The graph has the dependencies that are found among the loaded injectables. -/
structure Describes (g : ImportGraph) (env : Env) : Prop where
  adbi : g.adbi = env.adbi
  deps : ∀ x res, injectableGetDependencies env.toLoaded x = .ok res → g.deps x = res.1.entries.map (·.2)

/-- The counts of the injections, and those that instrumented segments have. -/
def counts (p : Process) (segments : List Pointer) : Injection.Process :=
  ⟨fun x => (p.injections.get x).map fun injection => injection.references, segments⟩

/-! ## The traversal -/

private theorem visits_below {recursion : Pointer → Except Fault Calls} {nodes : List (Nat × Pointer)}
    {start final : Calls}
    (same : ∀ x calls, recursion x = .ok calls →
      Injection.injectableIterDependencies g x = calls.dependencies)
    (ran : nodes.foldlM (iterDependency recursion) start = .ok final) :
    final.dependencies = start.dependencies ++ (nodes.map (·.2)).flatMap fun d =>
      Injection.injectableIterDependencies g d ++ [d] := by
  induction nodes generalizing start with
  | nil =>
    cases ran
    simp
  | cons node rest ih =>
    rw [List.foldlM_cons] at ran
    obtain ⟨middle, stepped, later⟩ := bind_ok ran
    obtain ⟨below, inner, rfl⟩ := iterDependency_ok stepped
    rw [ih later, List.map_cons, List.flatMap_cons, same node.2 below inner]
    simp

/-- A traversal that ends visits what that of the graph visits. -/
theorem visits_eq (describes : Describes g env) {x : Pointer} {calls : Calls}
    (ran : injectableIterDependencies env.toLoaded x = .ok calls) :
    Injection.injectableIterDependencies g x = calls.dependencies := by
  unfold injectableIterDependencies at ran
  generalize env.libraries.entries.length + 1 = depth at ran
  induction depth generalizing x calls with
  | zero => cases ran
  | succ depth ih =>
    obtain ⟨res, got, rest⟩ := bind_ok ran
    rw [InjectionProofs.iter_eq, describes.deps x res got,
      visits_below (fun _ _ below => ih below) rest, List.nil_append]

/-! ## What is done to the counts -/

private theorem counts_some {x : Pointer} {injection : Injection}
    (there : p.injections.get x = some injection) :
    (counts p segments).injections x = some injection.references := by
  simp [counts, there]

private theorem counts_none {x : Pointer} (absent : p.injections.get x = none) :
    (counts p segments).injections x = none := by
  simp [counts, absent]

private theorem counts_reference {x : Pointer} {injection : Injection}
    (there : p.injections.get x = some injection) :
    counts (p.reference x) segments =
      (counts p segments).set x (some (injection.references + 1)) := by
  simp only [counts, Injection.Process.set, Injection.Process.mk.injEq, and_true]
  funext y
  rw [get_reference]
  by_cases same : y = x
  · subst same
    simp [there]
  · simp [same]

private theorem counts_created {x : Pointer} (created : Created p x q) :
    counts q segments = (counts p segments).set x (some 0) := by
  obtain ⟨injection, fresh, zero⟩ := created.fresh
  simp only [counts, Injection.Process.set, Injection.Process.mk.injEq, and_true]
  funext y
  by_cases same : y = x
  · subst same
    simp [fresh, zero]
  · simp [same, created.others y same]

/-- The reference that follows `inject`. -/
private theorem counts_created_reference {x : Pointer} (created : Created p x q) :
    counts (q.reference x) segments = (counts q segments).set x (some 1) := by
  obtain ⟨injection, fresh, zero⟩ := created.fresh
  rw [counts_reference fresh, zero]

variable (segments) in
/-- `inject`, when it has injected. -/
private theorem inject_counts (describes : Describes g env) {x : Pointer}
    (ran : inject env p x = .ok (q, true)) :
    Created p x q ∧ Injection.inject g (counts p segments) x = .ok (counts q segments) := by
  have created : x ≠ env.adbi ∧ Created p x q := by
    unfold inject at ran
    split at ran
    · cases ran
    · rename_i notAdbi
      split at ran
      · cases ran
      · split at ran
        · cases ran
        · obtain ⟨created, made, rest⟩ := bind_ok ran
          obtain ⟨linked, -, rest⟩ := bind_ok rest
          split at rest
          · cases rest
            exact ⟨notAdbi, create_ok made⟩
          · obtain ⟨removed, -, rest⟩ := bind_ok rest
            cases rest
  refine ⟨created.2, ?_⟩
  rw [Injection.inject, if_neg (describes.adbi ▸ created.1), counts_created created.2]

/-- One visit of `inject_dependencies`. -/
private theorem dependency_counts (describes : Describes g env) {x : Pointer}
    (ran : dependency env p x = .ok q) :
    Injection.dependency g (counts p segments) x = .ok (counts q segments) := by
  unfold dependency at ran
  cases there : p.injections.get x with
  | some injection =>
    rw [there] at ran
    cases ran
    rw [Injection.dependency, counts_some there, counts_reference there]
  | none =>
    rw [there] at ran
    obtain ⟨⟨r, injected⟩, made, rest⟩ := bind_ok ran
    cases injected with
    | false => cases rest
    | true =>
      cases rest
      obtain ⟨created, same⟩ := inject_counts segments describes made
      rw [Injection.dependency, counts_none there, counts_created_reference created]
      simp only [same, ok_bind]

/-- All visits of `inject_dependencies`. -/
private theorem visits_counts (describes : Describes g env) {visits : List Pointer}
    (ran : visits.foldlM (dependency env) p = .ok q) :
    visits.foldlM (Injection.dependency g) (counts p segments) = .ok (counts q segments) := by
  induction visits generalizing p with
  | nil =>
    cases ran
    rfl
  | cons d rest ih =>
    rw [List.foldlM_cons] at ran ⊢
    obtain ⟨middle, first, later⟩ := bind_ok ran
    rw [dependency_counts describes first, ok_bind, ih later]

private theorem injectDependencies_counts (describes : Describes g env) {x : Pointer}
    (ran : injectDependencies env p x = .ok (q, true)) :
    Injection.injectDependencies g (counts p segments) x = .ok (counts q segments) := by
  obtain ⟨calls, traversed, rest⟩ := bind_ok ran
  rw [Injection.injectDependencies, visits_eq describes traversed]
  split at rest
  · obtain ⟨visited, visits, made⟩ := bind_ok rest
    cases made
    exact visits_counts describes visits
  · cases rest

/-- Instrumenting a segment that has no injection, when it comes to give it one, does to the counts
what it does where nothing fails. -/
theorem injectionsInit_counts (describes : Describes g env) {segment segment' : Segment} {x : Pointer}
    (unset : segment.injection = none) (ran : injectionsInit env p segment = .ok (q, segment'))
    (bound : segment'.injection = some x) :
    Injection.injectionsInit g (counts p segments) x = .ok (counts q (x :: segments)) := by
  cases handler : handlerFor env segment with
  | none =>
    simp only [injectionsInit, unset, handler] at ran
    cases ran
    rw [unset] at bound
    cases bound
  | some y =>
    cases there : p.injections.get y with
    | some injection =>
      simp only [injectionsInit, unset, handler, there] at ran
      cases ran
      cases bound
      simp only [Injection.injectionsInit, counts_some there, ok_bind]
      rw [← counts_reference there]
      rfl
    | none =>
      rw [init_absent unset handler there] at ran
      obtain ⟨⟨r, success⟩, dependencies, rest⟩ := bind_ok ran
      cases success with
      | false =>
        cases rest
        rw [unset] at bound
        cases bound
      | true =>
        have rest : (inject env r y >>= fun made => pure (settle segment y made)) = .ok (q, segment') :=
          rest
        obtain ⟨⟨made, injected⟩, ran', settled⟩ := bind_ok rest
        cases injected with
        | false =>
          cases settled
          rw [unset] at bound
          cases bound
        | true =>
          cases settled
          cases bound
          obtain ⟨created, same⟩ := inject_counts segments describes ran'
          obtain ⟨injection, fresh, -⟩ := created.fresh
          simp only [Injection.injectionsInit, counts_none there,
            injectDependencies_counts describes dependencies, same, ok_bind, counts_some fresh]
          rw [← counts_reference fresh]
          rfl

end Adbi.ReferenceProofs
