import Adbi.Instrument
import Adbi.LinkingProofs

/-! What a failed instrumentation leaves behind. The dependencies of a handler
come before it, each of them after its own dependencies, so that every import
can be linked; what was injected and counted on the way is never taken back. -/
namespace Adbi.InstrumentProofs
open Adbi.Lib Adbi.Linking Adbi.LinkingProofs Adbi.Instrument

/-! ## The order of the visits -/

/-- Everything that `v` imports from was seen before. -/
def Satisfied (s : Loaded) (seen : List Pointer) (v : Pointer) : Prop :=
  ∃ deps, injectableGetDependencies s v = .ok (deps, []) ∧ ∀ node ∈ deps.entries, node.2 ∈ seen

/-- Each injectable of the list comes after what it imports from. -/
def DepsFirst (s : Loaded) (l : List Pointer) : Prop :=
  ∀ before v after, l = before ++ v :: after → Satisfied s before v

theorem Satisfied.mono (satisfied : Satisfied s seen v) (more : ∀ x ∈ seen, x ∈ wide) :
    Satisfied s wide v := by
  obtain ⟨deps, got, members⟩ := satisfied
  exact ⟨deps, got, fun node member => more _ (members node member)⟩

theorem depsFirst_append (first : DepsFirst s l) (second : DepsFirst s m) : DepsFirst s (l ++ m) := by
  intro before v after split
  rcases List.append_eq_append_iff.mp split with ⟨mid, atBefore, atMiddle⟩ | ⟨mid, atLeft, atRight⟩
  · exact (second mid v after atMiddle).mono fun x member => by simp [atBefore, member]
  · cases mid with
    | nil =>
      have same : m = [] ++ v :: after := by simpa using atRight.symm
      exact (second [] v after same).mono fun x member => absurd member List.not_mem_nil
    | cons head tail =>
      cases atRight
      exact first before v tail atLeft

theorem depsFirst_concat (first : DepsFirst s l) (satisfied : Satisfied s l v) :
    DepsFirst s (l ++ [v]) := by
  intro before w after split
  rcases List.append_eq_append_iff.mp split with ⟨mid, atBefore, atMiddle⟩ | ⟨mid, atLeft, atRight⟩
  · cases mid with
    | nil =>
      cases atMiddle
      exact satisfied.mono fun x member => by simp [atBefore, member]
    | cons head tail => simp at atMiddle
  · cases mid with
    | nil =>
      cases atRight
      exact satisfied.mono fun x member => by simpa [atLeft] using member
    | cons head tail =>
      cases atRight
      exact first before w tail atLeft

/-- A traversal that resolves every import visits libraries only, each after
its own dependencies. -/
structure Orderly (s : Loaded) (visits : List Pointer) : Prop where
  depsFirst : DepsFirst s visits
  libraries : ∀ v ∈ visits, (s.injfile v).library = true

/-- One dependency of the traversal: what is below it, then the dependency. -/
private theorem orderly_visit (first : Orderly s visits) (below : Orderly s calls)
    (satisfied : Satisfied s calls v)
    (library : (s.injfile v).library = true) : Orderly s (visits ++ calls ++ [v]) where
  depsFirst := depsFirst_concat (depsFirst_append first.depsFirst below.depsFirst)
    (satisfied.mono fun _ member => List.mem_append_right _ member)
  libraries := by
    intro w member
    rcases List.mem_append.mp member with before | here
    · rcases List.mem_append.mp before with early | late
      · exact first.libraries w early
      · exact below.libraries w late
    · rw [List.mem_singleton.mp here]
      exact library

/-- What one dependency adds to the calls. -/
theorem iterDependency_ok {recursion : Pointer → Except Fault Calls} {start final : Calls}
    (ran : iterDependency recursion start node = .ok final) :
    ∃ below, recursion node.2 = .ok below ∧
      final = ⟨start.dependencies ++ below.dependencies ++ [node.2],
        start.unresolved ++ below.unresolved⟩ := by
  obtain ⟨below, inner, made⟩ := bind_ok ran
  cases made
  exact ⟨below, inner, rfl⟩

private theorem unresolved_kept {recursion : Pointer → Except Fault Calls} {nodes : List (Nat × Pointer)}
    {start final : Calls} (ran : nodes.foldlM (iterDependency recursion) start = .ok final)
    (resolved : final.unresolved = []) : start.unresolved = [] := by
  induction nodes generalizing start with
  | nil =>
    cases ran
    exact resolved
  | cons node rest ih =>
    rw [List.foldlM_cons] at ran
    obtain ⟨middle, stepped, later⟩ := bind_ok ran
    obtain ⟨below, -, rfl⟩ := iterDependency_ok stepped
    exact (List.append_eq_nil_iff.mp (ih later)).1

private theorem orderly_below {recursion : Pointer → Except Fault Calls} {nodes : List (Nat × Pointer)}
    {start final : Calls}
    (good : ∀ x calls, recursion x = .ok calls → calls.unresolved = [] →
      Orderly s calls.dependencies ∧ Satisfied s calls.dependencies x)
    (libraries : ∀ node ∈ nodes, (s.injfile node.2).library = true)
    (first : Orderly s start.dependencies)
    (ran : nodes.foldlM (iterDependency recursion) start = .ok final)
    (resolved : final.unresolved = []) :
    Orderly s final.dependencies ∧ (∀ v ∈ start.dependencies, v ∈ final.dependencies) ∧
      ∀ node ∈ nodes, node.2 ∈ final.dependencies := by
  induction nodes generalizing start with
  | nil =>
    cases ran
    exact ⟨first, fun _ member => member, fun _ member => absurd member List.not_mem_nil⟩
  | cons node rest ih =>
    rw [List.foldlM_cons] at ran
    obtain ⟨middle, stepped, later⟩ := bind_ok ran
    obtain ⟨below, inner, rfl⟩ := iterDependency_ok stepped
    have nothing := (List.append_eq_nil_iff.mp (unresolved_kept later resolved)).2
    obtain ⟨belowOrderly, satisfied⟩ := good node.2 below inner nothing
    obtain ⟨orderly, kept, visited⟩ :=
      ih (fun other member => libraries other (List.mem_cons_of_mem _ member))
      (orderly_visit first belowOrderly satisfied (libraries node List.mem_cons_self)) later
    refine ⟨orderly, fun v member => kept v (by simp [member]), fun other member => ?_⟩
    rcases List.mem_cons.mp member with rfl | later
    · exact kept other.2 (by simp)
    · exact visited other later

private theorem dependency_library {injectable : Pointer} {res : Resolution}
    (got : injectableGetDependencies s injectable = .ok res) (member : node ∈ res.1.entries) :
    (s.injfile node.2).library = true := by
  have found := ((dependencies_of_ok got).1 node).mp member
  obtain ⟨symbol, -, stopped⟩ := List.mem_filterMap.mp found
  exact s.libraries_library node (List.mem_of_find?_eq_some stopped)

private theorem iter_orderly {depth : Nat} :
    ∀ x calls, iterDependencies s depth x = .ok calls → calls.unresolved = [] →
      Orderly s calls.dependencies ∧ Satisfied s calls.dependencies x := by
  induction depth with
  | zero =>
    intro x calls ran
    cases ran
  | succ depth ih =>
    intro x calls ran resolved
    obtain ⟨⟨tree, unresolved⟩, got, rest⟩ := bind_ok ran
    have nothing : unresolved = [] := by simpa using unresolved_kept rest resolved
    have start : Orderly s [] :=
      ⟨fun before v after split => by simp at split, fun v member => absurd member List.not_mem_nil⟩
    obtain ⟨orderly, -, visited⟩ :=
      orderly_below ih (fun node member => dependency_library got member) start rest resolved
    rw [nothing] at got
    exact ⟨orderly, tree, got, visited⟩

/-- A traversal without unresolved imports visits every dependency of the
injectable, and each library after its own. -/
theorem traversal_orderly {x : Pointer} (ran : injectableIterDependencies s x = .ok calls)
    (resolved : calls.unresolved = []) : Orderly s calls.dependencies ∧
    Satisfied s calls.dependencies x :=
  iter_orderly x calls ran resolved

/-! ## Linking -/

/-- Every injectable of a list is in the process. -/
def AllPresent (p : Process) (seen : List Pointer) : Prop := ∀ v ∈ seen, (p.injections.get v).isSome

/-- What is found is an address. -/
theorem findExport_ne_zero (found : injectionFindExporter env p symbol = some node) :
    injectionFindExport env p symbol ≠ 0 := by
  have address : injectionGetExportedSymbolAddress env node symbol ≠ 0 :=
    by simpa using List.find?_some found
  rw [injectionFindExport, found]
  exact address

/-- An injection whose file has the export above the start of its code is found, or another one
before it. -/
theorem exporter_found {node : Pointer × Injection} (present : node ∈ p.injections.entries)
    (offset : 0 < injfileGetExport (env.injfile node.1) symbol) :
    ∃ other, injectionFindExporter env p symbol = some other := by
  refine Option.isSome_iff_exists.mp (List.find?_isSome.mpr ⟨node, present, ?_⟩)
  rw [decide_eq_true_eq, injectionGetExportedSymbolAddress, injectionRelocateAddress, if_neg (by omega)]
  omega

/-- Every import of an injectable is found when its dependencies are in the process. -/
theorem imports_found (satisfied : Satisfied env.toLoaded seen v) (present : AllPresent p seen)
    {symbol : Symbol} (member : symbol ∈ (env.injfile v).imports) :
    ∃ node, injectionFindExporter env p symbol.name = some node := by
  obtain ⟨deps, got, below⟩ := satisfied
  obtain ⟨members, left, -⟩ := dependencies_of_ok got
  cases stopped : findExporter env.toLoaded symbol.name with
  | none =>
    have reported : symbol ∈ leftOver env.toLoaded (env.injfile v).imports :=
      List.mem_filter.mpr ⟨member, by simp [stopped]⟩
    rw [← left] at reported
    cases reported
  | some node =>
    have dependency := (members node).mpr (List.mem_filterMap.mpr ⟨symbol, member, stopped⟩)
    obtain ⟨injection, there⟩ := Option.isSome_iff_exists.mp (present node.2 (below node dependency))
    have offset : 0 < injfileGetExport (env.injfile node.2) symbol.name :=
      by simpa using List.find?_some stopped
    exact exporter_found (OrderedTree.get_eq_some_iff.mp there) offset

/-- The place of an import in the code that was loaded. -/
def importAddress (address : Nat) (symbol : Symbol) : Nat :=
  injectionRelocateAddress address symbol.offset

/-- Whether the inferior takes the link of an import. -/
def linkWritten (env : Env) (x : Pointer) (address : Nat) (symbol : Symbol) : Bool :=
  (env.answers x).linked (linkSlot env (importAddress address symbol))

/-- When every import is found, linking fails only if a place is null or a link is not taken. -/
private theorem dlink_found {imports : List Symbol} (x address : Nat) (success : Bool)
    (found : ∀ symbol ∈ imports, injectionFindExport env p symbol.name ≠ 0) :
    imports.foldlM (linkImport env p x address) success =
      if imports.any (fun symbol => importAddress address symbol = 0) then .error .assertion
      else .ok (success && imports.all (linkWritten env x address)) := by
  induction imports generalizing success with
  | nil => simp [pure, Except.pure]
  | cons symbol rest ih =>
    have later := fun other member => found other (List.mem_cons_of_mem symbol member)
    rw [List.foldlM_cons, linkImport, if_neg (found symbol List.mem_cons_self)]
    by_cases place : importAddress address symbol = 0
    · have stops : ((symbol :: rest).any fun symbol => importAddress address symbol = 0) = true :=
        by simp [place]
      rw [if_pos stops]
      simp only [importAddress] at place
      rw [if_pos place]
      rfl
    · have goesOn : ((symbol :: rest).any fun symbol => importAddress address symbol = 0) =
          rest.any fun symbol => importAddress address symbol = 0 := by simp [place]
      rw [goesOn, List.all_cons, ← Bool.and_assoc]
      simp only [importAddress] at place
      rw [if_neg place]
      exact ih _ later

/-! ## One injection -/

inductive Outcome where
  | injected | failed | aborted
  deriving DecidableEq

/-- What the answers of the inferior make of one injection whose imports are all
found. An import at address 0 fails an assertion. -/
def outcome (env : Env) (x : Pointer) : Outcome :=
  if x = env.adbi then .aborted
  else
    match (env.answers x).allocated with
    | none => .failed
    | some address =>
      if !(env.answers x).loaded then .failed
      else if (env.injfile x).imports.any fun symbol => importAddress address symbol = 0 then .aborted
      else if (env.injfile x).imports.all (linkWritten env x address) &&
        injectionInit env x address then .injected
      else .failed

/-- A new injection, and everything else as before. -/
structure Created (p : Process) (x : Pointer) (q : Process) : Prop where
  fresh : ∃ injection, q.injections.get x = some injection ∧ injection.references = 0
  others : ∀ y, y ≠ x → q.injections.get y = p.injections.get y

/-- What `inject` does, by the answers of the inferior. -/
def InjectSpec (env : Env) (p : Process) (x : Pointer) : Outcome → Prop
  | .injected => ∃ q, inject env p x = .ok (q, true) ∧ Created p x q
  | .failed => inject env p x = .ok (p, false)
  | .aborted => inject env p x = .error .assertion

private theorem create_absent (absent : p.injections.get x = none) (address : Nat) :
    ∃ q, injectionCreate p x address = .ok q ∧ Created p x q ∧
      q.injections.get x = some ⟨address, 0⟩ ∧ injectionFree q x = .ok p := by
  obtain ⟨tree, inserted⟩ := OrderedTree.tryInsert_of_absent (v := (⟨address, 0⟩ : Injection)) absent
  have got : tree.get x = some ⟨address, 0⟩ := by rw [OrderedTree.get_tryInsert inserted, if_pos rfl]
  refine ⟨⟨tree, Function.update p.counts x (p.counts x + 1)⟩, by rw [injectionCreate, inserted],
    ⟨⟨_, got, rfl⟩, ?_⟩,
    got, ?_⟩
  · intro y different
    rw [OrderedTree.get_tryInsert inserted, if_neg different]
  · rw [injectionFree, got]
    simp [OrderedTree.remove_tryInsert inserted]

private theorem inject_spec (absent : p.injections.get x = none)
    (satisfied : Satisfied env.toLoaded seen x)
    (present : AllPresent p seen) : InjectSpec env p x (outcome env x) := by
  by_cases adbi : x = env.adbi
  · simp only [outcome, adbi, ↓reduceIte, InjectSpec, inject]
  cases allocated : (env.answers x).allocated with
  | none => simp only [outcome, adbi, ↓reduceIte, allocated, InjectSpec, inject]
  | some address =>
    cases loaded : (env.answers x).loaded with
    | false =>
      simp only [outcome, adbi, ↓reduceIte, allocated, loaded, Bool.not_false, InjectSpec, inject]
    | true =>
      obtain ⟨q, created, isCreated, got, freed⟩ := create_absent absent address
      have stillPresent : AllPresent q seen := by
        intro v member
        rw [isCreated.others v fun same => by simpa [same ▸ absent] using present v member]
        exact present v member
      have linked := dlink_found x address true
        fun symbol member => findExport_ne_zero (imports_found satisfied stillPresent member).choose_spec
      have ran : inject env p x =
          (do
            let linked ← injectionDlink env q x address
            if linked && injectionInit env x address then return (q, true)
            else return (← uninject env q x, false)) := by
        simp only [inject, adbi, ↓reduceIte, allocated, loaded, Bool.not_true,
          Bool.false_eq_true, created]
        rfl
      have undone : uninject env q x = .ok p := by
        simp only [uninject, adbi, ↓reduceIte, got, freed]
      rw [← injectionDlink] at linked
      simp only [outcome, adbi, ↓reduceIte, allocated, loaded, Bool.not_true, Bool.false_eq_true]
      rw [linked] at ran
      by_cases place : ((env.injfile x).imports.any fun symbol =>
        importAddress address symbol = 0) = true
      · rw [if_pos place] at ran ⊢
        exact ran
      · rw [if_neg place] at ran ⊢
        by_cases works : ((env.injfile x).imports.all (linkWritten env x address) &&
          injectionInit env x address) = true
        · rw [if_pos works]
          refine ⟨q, ran.trans ?_, isCreated⟩
          rw [Bool.true_and]
          exact if_pos works
        · rw [if_neg works]
          refine ran.trans ?_
          rw [Bool.true_and]
          refine (if_neg works).trans ?_
          rw [undone]
          rfl

/-! ## All the dependencies -/

/-- What the visits of `seen` have made of a process: each of these injectables
is there, with more references than before. -/
structure Grown (p q : Process) (seen : List Pointer) : Prop where
  present : ∀ y, (q.injections.get y).isSome ↔ (p.injections.get y).isSome ∨ y ∈ seen
  counted : ∀ y i j, p.injections.get y = some i → q.injections.get y = some j →
    i.references ≤ j.references ∧ (y ∈ seen → i.references < j.references)

theorem Grown.refl (p : Process) : Grown p p [] where
  present y := by simp
  counted y i j before after := by
    rw [before] at after
    cases after
    exact ⟨le_rfl, fun member => absurd member List.not_mem_nil⟩

theorem Grown.allPresent (grown : Grown p q seen) : AllPresent q seen := fun v member =>
  (grown.present v).mpr (.inr member)

theorem get_reference (q : Process) (x y : Pointer) :
    (q.reference x).injections.get y =
      if y = x then (q.injections.get y).map fun injection =>
      { injection with references := injection.references + 1 }
      else q.injections.get y := OrderedTree.get_adjust _ y

/-- One more reference. -/
private theorem grown_reference (grown : Grown p q seen) (there : (q.injections.get x).isSome) :
    Grown p (q.reference x) (seen ++ [x]) where
  present y := by
    rw [get_reference]
    by_cases same : y = x
    · subst same
      simp [there]
    · simp [same, grown.present y]
  counted y i j before after := by
    rw [get_reference] at after
    split at after
    · obtain ⟨k, there, rfl⟩ := Option.map_eq_some_iff.mp after
      have kept := (grown.counted y i k before there).1
      simp only
      exact ⟨by omega, fun _ => by omega⟩
    · rename_i different
      obtain ⟨kept, more⟩ := grown.counted y i j before after
      exact ⟨kept, fun member => more (by simpa [different] using member)⟩

/-- A new injection of what was not there, then its reference. -/
private theorem grown_created (grown : Grown p q seen) (absent : q.injections.get x = none)
    (created : Created q x r) :
    Grown p (r.reference x) (seen ++ [x]) where
  present y := by
    obtain ⟨injection, fresh, -⟩ := created.fresh
    rw [get_reference]
    by_cases same : y = x
    · subst same
      simp [fresh]
    · simp [same, created.others y same, grown.present y]
  counted y i j before after := by
    by_cases same : y = x
    · subst same
      have present := (grown.present y).mpr (.inl (by simp [before]))
      simp [absent] at present
    · rw [get_reference, if_neg same, created.others y same] at after
      obtain ⟨kept, more⟩ := grown.counted y i j before after
      exact ⟨kept, fun member => more (by simpa [same] using member)⟩

/-- A dependency that has to be injected, and is not. -/
def stuck (env : Env) (p : Process) (v : Pointer) : Bool :=
  (p.injections.get v).isNone && decide (outcome env v ≠ .injected)

/-- What becomes of the visits of `inject_dependencies`. -/
def VisitSpec (env : Env) (p : Process) (visits : List Pointer) (result : Except Fault Process) : Prop :=
  match visits.find? (stuck env p) with
  | none => ∃ q, result = .ok q ∧ Grown p q visits
  | some v => result = .error (if outcome env v = .aborted then .assertion else .missing)

/-- A dependency that is not stuck is counted. -/
private theorem dependency_counts (grown : Grown p q seen) (satisfied : Satisfied env.toLoaded seen v)
    (free : stuck env p v = false) : ∃ r, dependency env q v = .ok r ∧ Grown p r (seen ++ [v]) := by
  cases there : q.injections.get v with
  | some injection =>
    exact ⟨q.reference v, by simp only [dependency, there], grown_reference grown (by simp [there])⟩
  | none =>
    have before : p.injections.get v = none := by
      by_contra some
      have present := (grown.present v).mpr (.inl (Option.isSome_iff_ne_none.mpr some))
      simp [there] at present
    have injected : outcome env v = .injected := by simpa [stuck, before] using free
    have spec := inject_spec there satisfied grown.allPresent
    rw [injected] at spec
    obtain ⟨r, ran, created⟩ := spec
    refine ⟨r.reference v, ?_, grown_created grown there created⟩
    simp only [dependency, there, ran]
    rfl

/-- A dependency that is stuck ends the server. -/
private theorem dependency_stuck (grown : Grown p q seen) (satisfied : Satisfied env.toLoaded seen v)
    (earlier : ∀ w ∈ seen, stuck env p w = false) (isStuck : stuck env p v = true) :
    dependency env q v = .error (if outcome env v = .aborted then .assertion else .missing) := by
  obtain ⟨before, notInjected⟩ : p.injections.get v = none ∧ outcome env v ≠ .injected :=
    by simpa [stuck] using isStuck
  have notSeen : v ∉ seen := fun member => by simp [earlier v member] at isStuck
  have there : q.injections.get v = none := by
    by_contra some
    rcases (grown.present v).mp (Option.isSome_iff_ne_none.mpr some) with old | member
    · simp [before] at old
    · exact notSeen member
  have spec := inject_spec there satisfied grown.allPresent
  cases out : outcome env v with
  | injected => exact absurd out notInjected
  | failed =>
    rw [out] at spec
    simp only [InjectSpec] at spec
    simp only [dependency, there, spec]
    rfl
  | aborted =>
    rw [out] at spec
    simp only [InjectSpec] at spec
    simp only [dependency, there, spec]
    rfl

private theorem visits_from (rest : List Pointer) (first : DepsFirst env.toLoaded (seen ++ rest))
    (grown : Grown p q seen) (earlier : ∀ w ∈ seen, stuck env p w = false) :
    match rest.find? (stuck env p) with
    | none => ∃ r, rest.foldlM (dependency env) q = .ok r ∧ Grown p r (seen ++ rest)
    | some v =>
      rest.foldlM (dependency env) q =
        .error (if outcome env v = .aborted then .assertion else .missing) := by
  induction rest generalizing seen q with
  | nil => exact ⟨q, rfl, by simpa using grown⟩
  | cons v rest ih =>
    have satisfied := first seen v rest rfl
    rw [List.foldlM_cons]
    cases isStuck : stuck env p v with
    | true =>
      rw [List.find?_cons_of_pos isStuck, dependency_stuck grown satisfied earlier isStuck]
      rfl
    | false =>
      rw [List.find?_cons_of_neg (by simp [isStuck])]
      obtain ⟨r, counted, more⟩ := dependency_counts grown satisfied isStuck
      rw [counted]
      have split : seen ++ [v] ++ rest = seen ++ v :: rest := by simp
      have later := ih (split ▸ first) more fun w member => by
        rcases List.mem_append.mp member with old | new
        · exact earlier w old
        · rw [List.mem_singleton.mp new]
          exact isStuck
      rw [split] at later
      exact later

theorem visits_spec (orderly : Orderly env.toLoaded visits) :
    VisitSpec env p visits (visits.foldlM (dependency env) p) :=
  visits_from visits orderly.depsFirst (Grown.refl p) fun _ member => absurd member List.not_mem_nil

/-- A visit leaves a mark. -/
private theorem grown_ne (grown : Grown p q visits) (some : visits ≠ []) : q ≠ p := by
  rintro rfl
  obtain ⟨v, member⟩ := List.exists_mem_of_ne_nil visits some
  obtain ⟨injection, there⟩ := Option.isSome_iff_exists.mp ((grown.present v).mpr (.inr member))
  exact absurd ((grown.counted v injection injection there there).2 member) (lt_irrefl _)

/-! ## Instrumenting a segment -/

variable {segment : Segment}

/-- Resolving looks at injectables, not at injections. -/
private theorem resolve_not_missing {injectable : Pointer} {failure : Fault}
    (failed : injectableGetDependencies s injectable = .error failure) : failure ≠ .missing := by
  refine foldlM_error (P := fun failure => failure ≠ .missing)
    (fun res symbol failure stopped => ?_) failed
  rw [resolveImport] at stopped
  split at stopped
  · split at stopped
    · cases stopped
    · cases stopped
      decide
  · cases stopped

private theorem iter_not_missing {depth : Nat} {x : Pointer} {failure : Fault}
    (failed : iterDependencies s depth x = .error failure) : failure ≠ .missing := by
  induction depth generalizing x failure with
  | zero =>
    cases failed
    decide
  | succ depth ih =>
    rcases bind_error failed with resolving | ⟨res, -, below⟩
    · exact resolve_not_missing resolving
    · refine foldlM_error (P := fun failure => failure ≠ .missing)
        (fun calls node failure stopped => ?_) below
      rcases bind_error stopped with deeper | ⟨_, -, made⟩
      · exact ih deeper
      · cases made

/-- Nothing was dereferenced that is not there, and a segment left without
handlers leaves the injections and all the counts as they were. -/
def Traceless (p : Process) (result : Except Fault (Process × Segment)) : Prop :=
  result ≠ .error .missing ∧ ∀ q left, result = .ok (q, left) → left.injection = none → q = p

def LeavesNoTrace (env : Env) (p : Process) (segment : Segment) : Prop :=
  Traceless p (injectionsInit env p segment)

/-- No dependency that has to be injected fails, and the handlers do not fail
after a dependency was counted. -/
def Undisturbed (env : Env) (p : Process) (x : Pointer) (visits : List Pointer) : Prop :=
  match visits.find? (stuck env p) with
  | some v => outcome env v = .aborted
  | none => visits = [] ∨ outcome env x ≠ .failed

/-- Handlers that have to be injected, and all of whose imports are resolved, are
injected undisturbed. -/
def NothingToUndo (env : Env) (p : Process) (segment : Segment) : Prop :=
  segment.injection = none → ∀ x, handlerFor env segment = some x → p.injections.get x = none →
    ∀ calls, injectableIterDependencies env.toLoaded x = .ok calls → calls.unresolved = [] →
      Undisturbed env p x calls.dependencies

theorem handler_bound (handler : handlerFor env segment = some x) : (env.injfile x).library = false := by
  rw [handlerFor, Option.bind_eq_bind, Option.bind_eq_some_iff] at handler
  obtain ⟨path, -, chosen⟩ := handler
  split at chosen
  · cases chosen
  · obtain ⟨bound, -⟩ := Option.filter_eq_some_iff.mp chosen
    obtain ⟨node, found, rfl⟩ := Option.map_eq_some_iff.mp bound
    exact env.bindings_bound node (List.mem_of_find?_eq_some found)

/-- The end of `injections_init`. -/
def settle (segment : Segment) (x : Pointer) (q : Process × Bool) : Process × Segment :=
  if q.2 then (q.1.reference x, { segment with injection := some x }) else (q.1, segment)

/-- The part of `injections_init` that injects, for handlers that are not there. -/
def injectHandlers (env : Env) (p : Process) (segment : Segment) (x : Pointer) :
    Except Fault (Process × Segment) := do
  let (p, success) ← injectDependencies env p x
  let q ← if success then inject env p x else pure (p, false)
  return settle segment x q

theorem init_absent (unset : segment.injection = none)
    (handler : handlerFor env segment = some x)
    (absent : p.injections.get x = none) :
    injectionsInit env p segment = injectHandlers env p segment x := by
  simp only [injectionsInit, unset, handler, absent, injectHandlers]
  cases injectDependencies env p x with
  | error failure => rfl
  | ok q =>
    obtain ⟨q, success⟩ := q
    cases success with
    | false => rfl
    | true =>
      cases ran : inject env q x with
      | error failure => simp only [bind, Except.bind, ran, ↓reduceIte]
      | ok r =>
        obtain ⟨r, injected⟩ := r
        cases injected <;> simp [bind, Except.bind, ran, settle, pure, Except.pure]

/-- Dependencies are libraries, and handlers are none of them. -/
private theorem handlers_not_visited (orderly : Orderly env.toLoaded visits)
    (handler : handlerFor env segment = some x) :
    x ∉ visits := fun member => by
  have library := orderly.libraries x member
  rw [handler_bound handler] at library
  cases library

/-- With every import resolved, what `injections_init` does after the visits. -/
private theorem inject_resolved {x : Pointer}
    (ran : injectableIterDependencies env.toLoaded x = .ok calls)
    (resolved : calls.unresolved = []) :
    injectHandlers env p segment x =
      calls.dependencies.foldlM (dependency env) p >>= fun q => inject env q x >>= fun r =>
      .ok (settle segment x r) := by
  have counted : injectDependencies env p x =
      calls.dependencies.foldlM (dependency env) p >>= fun q => .ok (q, true) := by
    rw [injectDependencies, ran]
    change (if calls.unresolved.isEmpty then _ else _) = _
    rw [resolved]
    rfl
  rw [injectHandlers, counted]
  cases calls.dependencies.foldlM (dependency env) p <;> rfl

private theorem inject_unresolved {x : Pointer}
    (ran : injectableIterDependencies env.toLoaded x = .ok calls)
    (unresolved : calls.unresolved ≠ []) : injectHandlers env p segment x = .ok (p, segment) := by
  have nothing : injectDependencies env p x = .ok (p, false) := by
    rw [injectDependencies, ran]
    change (if calls.unresolved.isEmpty then _ else _) = _
    rw [if_neg (by simpa using unresolved)]
    rfl
  rw [injectHandlers, nothing]
  rfl

private theorem traceless_assertion : Traceless p (.error .assertion) :=
  ⟨nofun, nofun⟩

private theorem traceless_same : Traceless p (.ok (p, segment)) := by
  refine ⟨nofun, fun q left same _ => ?_⟩
  cases same
  rfl

private theorem resolved_traceless_iff {x : Pointer} (unset : segment.injection = none)
    (handler : handlerFor env segment = some x) (absent : p.injections.get x = none)
    (ran : injectableIterDependencies env.toLoaded x = .ok calls) (resolved : calls.unresolved = []) :
    Traceless p (injectHandlers env p segment x) ↔ Undisturbed env p x calls.dependencies := by
  obtain ⟨orderly, satisfied⟩ := traversal_orderly ran resolved
  have visits := visits_spec (p := p) orderly
  rw [inject_resolved ran resolved]
  rw [VisitSpec] at visits
  rw [Undisturbed]
  cases found : calls.dependencies.find? (stuck env p) with
  | some v =>
    rw [found] at visits
    simp only at visits ⊢
    rw [visits]
    by_cases aborted : outcome env v = .aborted
    · rw [if_pos aborted]
      exact iff_of_true traceless_assertion aborted
    · rw [if_neg aborted]
      exact iff_of_false (fun traceless => traceless.1 rfl) aborted
  | none =>
    rw [found] at visits
    obtain ⟨q, visited, grown⟩ := visits
    have notThere : q.injections.get x = none := by
      by_contra some
      rcases (grown.present x).mp (Option.isSome_iff_ne_none.mpr some) with old | member
      · simp [absent] at old
      · exact handlers_not_visited orderly handler member
    have spec := inject_spec notThere satisfied grown.allPresent
    rw [visited]
    change Traceless p (inject env q x >>= fun r => .ok (settle segment x r)) ↔ _
    cases out : outcome env x with
    | injected =>
      rw [out] at spec
      obtain ⟨r, injected, -⟩ := spec
      rw [injected]
      refine iff_of_true ⟨nofun, fun r' left same isNone => ?_⟩ (.inr (by simp))
      cases same
      cases isNone
    | failed =>
      rw [out] at spec
      rw [show inject env q x = .ok (q, false) from spec]
      constructor
      · intro traceless
        by_contra some
        exact grown_ne grown (fun nothing => some (.inl nothing)) (traceless.2 q segment rfl unset)
      · intro nothing
        rw [nothing.resolve_right (by simp)] at visited
        cases visited
        exact traceless_same
    | aborted =>
      rw [out] at spec
      rw [show inject env q x = .error .assertion from spec]
      exact iff_of_true traceless_assertion (.inr (by simp))

/-- An instrumentation that fails leaves no trace if and only if nothing that was
counted or injected before it would have to be taken back. -/
theorem leaves_no_trace_iff (env : Env) (p : Process) (segment : Segment) :
    LeavesNoTrace env p segment ↔ NothingToUndo env p segment := by
  rw [LeavesNoTrace, NothingToUndo]
  cases unset : segment.injection with
  | some y =>
    refine iff_of_true ?_ nofun
    simp only [injectionsInit, unset]
    split
    · exact traceless_assertion
    · split
      · exact traceless_same
      · exact traceless_assertion
  | none =>
    cases handler : handlerFor env segment with
    | none =>
      refine iff_of_true ?_ fun _ x isSome => by cases isSome
      simp only [injectionsInit, unset, handler]
      exact traceless_same
    | some x =>
      cases there : p.injections.get x with
      | some injection =>
        refine iff_of_true ⟨?_, fun q left same isNone => ?_⟩ ?_
        · simp only [injectionsInit, unset, handler, there]
          nofun
        · simp only [injectionsInit, unset, handler, there] at same
          cases same
          cases isNone
        · intro _ y isHandler absent
          cases isHandler
          rw [there] at absent
          cases absent
      | none =>
        rw [init_absent unset handler there]
        cases ran : injectableIterDependencies env.toLoaded x with
        | error failure =>
          have failed : injectHandlers env p segment x = .error failure := by
            rw [injectHandlers, injectDependencies, ran]
            rfl
          refine iff_of_true ⟨fun same => ?_, fun q left same => ?_⟩ fun _ y isHandler _
            calls ranOk => ?_
          · rw [failed] at same
            cases same
            exact iter_not_missing ran rfl
          · rw [failed] at same
            cases same
          · cases isHandler
            rw [ran] at ranOk
            cases ranOk
        | ok calls =>
          by_cases resolved : calls.unresolved = []
          · rw [resolved_traceless_iff unset handler there ran resolved]
            constructor
            · intro undisturbed _ y isHandler _ others ranOk _
              cases isHandler
              rw [ran] at ranOk
              cases ranOk
              exact undisturbed
            · intro nothing
              exact nothing rfl x rfl there calls ran resolved
          · refine iff_of_true ?_ fun _ y isHandler _ others ranOk otherResolved => ?_
            · rw [inject_unresolved ran resolved]
              exact traceless_same
            · cases isHandler
              rw [ran] at ranOk
              cases ranOk
              exact absurd otherResolved resolved

/-- A library that exports one symbol and handlers that import it, in an
inferior that has no memory for one of the two. -/
def refusing (refused : Pointer) : Env where
  libraries := ⟨[(1, 0x1000)], by simp⟩
  bindings := ⟨[(2, 0x2000)], by simp⟩
  injfile p :=
    if p = 0x1000 then ⟨[], true, [], [], [⟨[0x66#8], 4⟩], []⟩
      else ⟨[0x2f#8], false, [], [⟨[0x66#8], 0⟩], [], [16]⟩
  libraries_library := by simp
  bindings_bound := by simp
  adbi := 0x500
  mode32 := true
  modulus := 2 ^ 32
  answers x := ⟨if x = refused then none else some 0x8000, true, fun _ => true, true⟩

/-- A process with nothing but `#adbi`. -/
def bare : Process := ⟨⟨[(0x500, ⟨0x7000, 1⟩)], by simp⟩, fun x => if x = 0x500 then 1 else 0⟩

def text : Segment := ⟨some [0x2f#8], 0x10000, 0x11000, 0, true, false, none⟩

/-- Without memory for the library its injection is dereferenced all the same,
and without memory for the handlers the library stays. -/
theorem refused_leaves_trace : ¬LeavesNoTrace (refusing 0x1000) bare text ∧
    ¬LeavesNoTrace (refusing 0x2000) bare text := by
  refine ⟨fun traceless => traceless.1 rfl, fun traceless => ?_⟩
  have same := congrArg (fun p => (p.injections.get 0x1000).isSome) (traceless.2 _ text rfl rfl)
  cases same

/-! ## What the imports are bound to -/

/-- `y` is one of the libraries that `injectable_get_dependencies` returns for `x`. -/
def IsDependency (env : Env) (x y : Pointer) : Prop :=
  ∃ deps unresolved, injectableGetDependencies env.toLoaded x = .ok (deps, unresolved) ∧
  y ∈ deps.entries.map (·.2)

/-- Every import is bound to an export of a library that was counted for it. -/
def BindsToDependencies (env : Env) (p : Process) (x : Pointer) : Prop :=
  ∀ symbol ∈ (env.injfile x).imports, ∃ node,
    injectionFindExporter env p symbol.name = some node ∧ IsDependency env x node.1

/-- Whatever else in the process has an export for an import, one of the
dependencies has it too and is an injectable with a lower address. -/
def DependenciesPrecede (env : Env) (p : Process) (x : Pointer) : Prop :=
  ∀ symbol ∈ (env.injfile x).imports, ∀ other ∈ p.injections.entries,
    injectionGetExportedSymbolAddress env other symbol.name ≠ 0 → ¬IsDependency env x other.1 →
      ∃ node ∈ p.injections.entries, IsDependency env x node.1 ∧
        injectionGetExportedSymbolAddress env node symbol.name ≠ 0 ∧ node.1 < other.1

theorem create_ok (ran : injectionCreate q x address = .ok r) : Created q x r := by
  cases there : q.injections.get x with
  | some injection =>
    rw [injectionCreate, OrderedTree.tryInsert_of_present there] at ran
    cases ran
  | none =>
    obtain ⟨other, made, created, -⟩ := create_absent there address
    rw [made] at ran
    cases ran
    exact created

/-- After `inject_dependencies` everything that the injectable imports from is there. -/
private theorem injected_dependencies {x : Pointer} (ran : injectDependencies env p x = .ok (q, true)) :
    ∃ seen, Satisfied env.toLoaded seen x ∧ AllPresent q seen := by
  obtain ⟨calls, traversed, rest⟩ := bind_ok ran
  split at rest
  · rename_i resolved
    obtain ⟨orderly, satisfied⟩ := traversal_orderly traversed (List.isEmpty_iff.mp resolved)
    obtain ⟨visited, ranVisits, made⟩ := bind_ok rest
    cases made
    have visits := visits_spec (p := p) orderly
    rw [VisitSpec, ranVisits] at visits
    split at visits
    · obtain ⟨grown, same, isGrown⟩ := visits
      cases same
      exact ⟨_, satisfied, isGrown.allPresent⟩
    · cases visits
  · cases rest

/-- When an injectable is linked right after its dependencies were injected,
every import is bound to one of them if and only if they precede, in the order
of the addresses of the injectables, whatever else exports the import. -/
theorem binds_to_dependencies_iff (env : Env) (p q r : Process) (x : Pointer) (address : Nat)
    (ran : injectDependencies env p x = .ok (q, true)) (created : injectionCreate q x address = .ok r) :
    BindsToDependencies env r x ↔ DependenciesPrecede env r x := by
  obtain ⟨seen, satisfied, present⟩ := injected_dependencies ran
  have isCreated := create_ok created
  have stillPresent : AllPresent r seen := by
    intro v member
    by_cases same : v = x
    · obtain ⟨injection, fresh, -⟩ := isCreated.fresh
      simp [same, fresh]
    · rw [isCreated.others v same]
      exact present v member
  constructor
  · intro binds symbol member other there offers stranger
    obtain ⟨node, found, dependency⟩ := binds symbol member
    refine ⟨node, List.mem_of_find?_eq_some found, dependency, by simpa using List.find?_some found, ?_⟩
    refine lt_of_le_of_ne (OrderedTree.find?_le found there (by simpa using offers)) fun same => ?_
    exact stranger (same ▸ dependency)
  · intro precede symbol member
    obtain ⟨node, found⟩ := imports_found satisfied stillPresent member
    refine ⟨node, found, ?_⟩
    by_contra stranger
    obtain ⟨dep, there, -, offers, lower⟩ :=
      precede symbol member node (List.mem_of_find?_eq_some found)
        (by simpa using List.find?_some found) stranger
    exact absurd (OrderedTree.find?_le found there (by simpa using offers)) (not_le.mpr lower)

/-- Two libraries with one export, the first of them at the higher address, and
handlers that import it. -/
def rivals : Env where
  libraries := ⟨[(1, 0x2000), (2, 0x1000)], by simp⟩
  bindings := ⟨[(3, 0x3000)], by simp⟩
  injfile p :=
    if p = 0x3000 then ⟨[0x2f#8], false, [], [⟨[0x66#8], 0⟩], [], [16]⟩
    else ⟨[], true, [], [], if p = 0x500 then [] else [⟨[0x66#8], 4⟩], []⟩
  libraries_library := by simp
  bindings_bound := by simp
  adbi := 0x500
  mode32 := true
  modulus := 2 ^ 32
  answers x := ⟨some (0x8000 + x), true, fun _ => true, true⟩

/-- A process in which the second library is in use already. -/
def second : Process := ⟨⟨[(0x500, ⟨0x7000, 1⟩), (0x1000, ⟨0x6000, 1⟩)], by simp⟩, fun _ => 1⟩

theorem rivals_bind_to_dependencies_iff : ∃ q r,
    injectDependencies rivals second 0x3000 = .ok (q, true) ∧ injectionCreate q 0x3000 0x9000 = .ok r ∧
      (BindsToDependencies rivals r 0x3000 ↔ DependenciesPrecede rivals r 0x3000) :=
  ⟨_, _, rfl, rfl, binds_to_dependencies_iff rivals second _ _ 0x3000 0x9000 rfl rfl⟩

private theorem rivals_dependency (dependency : IsDependency rivals 0x3000 y) : y = 0x2000 := by
  obtain ⟨deps, unresolved, got, member⟩ := dependency
  have resolved : injectableGetDependencies rivals.toLoaded 0x3000 =
      .ok (⟨[(1, 0x2000)], by simp⟩, []) := rfl
  rw [resolved] at got
  cases got
  simpa using member

/-- The first library is counted, and the import is bound to the second one. -/
theorem rival_is_bound : ∃ q r,
    injectDependencies rivals second 0x3000 = .ok (q, true) ∧ injectionCreate q 0x3000 0x9000 = .ok r ∧
      ¬BindsToDependencies rivals r 0x3000 := by
  refine ⟨_, _, rfl, rfl, fun binds => ?_⟩
  obtain ⟨node, found, dependency⟩ := binds ⟨[0x66#8], 0⟩ (by simp [rivals])
  have isSecond : node = (0x1000, ⟨0x6000, 1⟩) := Option.some.inj (found.symm.trans rfl)
  have isFirst := rivals_dependency dependency
  rw [isSecond] at isFirst
  cases isFirst

end Adbi.InstrumentProofs
