import Mathlib.Algebra.BigOperators.Group.Finset.Basic
import Mathlib.Logic.Relation
import Adbi.Injection

/-! The reference count law of injections. A library is counted once for each
path of imports that leads to it from an injected handler. Removing a handler
gives exactly these counts back as long as no library that becomes unused has
imports of its own; when one has, its dependencies are given back twice. -/
namespace Adbi.InjectionProofs
open Adbi.Lib Adbi.Injection

variable {g : ImportGraph}

/-! ## The traversal -/

/-- `x` imports from `l`, directly or through other libraries. -/
def DependsOn (g : ImportGraph) : Iid → Iid → Prop := Relation.TransGen fun x d => d ∈ g.deps x

private theorem deps_of_rank_zero (zero : g.rank x = 0) : g.deps x = [] :=
  List.eq_nil_iff_forall_not_mem.mpr fun d member => by
    have := g.descends x d member
    omega

private theorem iter_depth_irrelevant (first : g.rank x ≤ a) (second : g.rank x ≤ b) :
    iterDependencies g a x = iterDependencies g b x := by
  induction a generalizing x b with
  | zero =>
    have none := deps_of_rank_zero (Nat.le_zero.mp first)
    cases b <;> simp [iterDependencies, none]
  | succ a ih =>
    cases b with
    | zero => simp [iterDependencies, deps_of_rank_zero (Nat.le_zero.mp second)]
    | succ b =>
      simp only [iterDependencies]
      refine List.flatMap_congr fun d member => ?_
      have lower := g.descends x d member
      rw [ih (x := d) (b := b) (by omega) (by omega)]

/-- The traversal visits the traversal of each direct dependency and then the
dependency. -/
theorem iter_eq (g : ImportGraph) (x : Iid) :
    injectableIterDependencies g x =
      (g.deps x).flatMap fun d => injectableIterDependencies g d ++ [d] := by
  unfold injectableIterDependencies
  rw [iter_depth_irrelevant (Nat.le_refl _) (Nat.le_succ (g.rank x))]
  simp only [iterDependencies]
  refine List.flatMap_congr fun d member => ?_
  rw [iter_depth_irrelevant (Nat.le_of_lt (g.descends x d member)) (Nat.le_refl _)]

theorem iter_leaf (leaf : g.deps x = []) : injectableIterDependencies g x = [] := by
  rw [iter_eq, leaf]
  rfl

/-- The traversal visits exactly the transitive dependencies. -/
theorem mem_iter_iff : l ∈ injectableIterDependencies g x ↔ DependsOn g x l := by
  constructor
  · intro member
    induction rank : g.rank x using Nat.strong_induction_on generalizing x with
    | _ rank' ih =>
      rw [iter_eq, List.mem_flatMap] at member
      obtain ⟨d, direct, visited⟩ := member
      rcases List.mem_append.mp visited with deeper | own
      · have lower := g.descends x d direct
        exact .head direct (ih (g.rank d) (by omega) deeper rfl)
      · rw [List.mem_singleton.mp own]
        exact .single direct
  · intro depends
    induction depends using Relation.TransGen.head_induction_on with
    | single direct =>
      rw [iter_eq, List.mem_flatMap]
      exact ⟨_, direct, List.mem_append_right _ List.mem_cons_self⟩
    | head direct _ ih =>
      rw [iter_eq, List.mem_flatMap]
      exact ⟨_, direct, List.mem_append_left _ ih⟩

theorem iter_libraries (member : l ∈ injectableIterDependencies g x) : g.library l = true := by
  induction mem_iter_iff.mp member with
  | single direct => exact g.deps_library _ _ direct
  | tail _ direct _ => exact g.deps_library _ _ direct

/-! ## Counting -/

/-- An injection exists exactly when its count is not zero. -/
def counted (n : Iid → Nat) (x : Iid) : Option Nat := if n x = 0 then none else some (n x)

/-- How often a library is needed: once for itself if it is `#adbi`, and once
for every import path from an injected handler. -/
def needs (g : ImportGraph) (segments : List Iid) (l : Iid) : Nat :=
  (if l = g.adbi then 1 else 0) + ∑ h ∈ segments.toFinset, (injectableIterDependencies g h).count l

/-- The invariant: handlers are counted by their segments, libraries by need. -/
structure Counted (g : ImportGraph) (p : Process) : Prop where
  handlers : ∀ h ∈ p.segments, g.library h = false
  own : ∀ h, g.library h = false → p.injections h = counted (fun h => p.segments.count h) h
  shared : ∀ l, g.library l = true → p.injections l = counted (needs g p.segments) l

/-- `p` and `q` agree on everything but the libraries, whose counts in `q` are `n`. -/
structure Recounted (g : ImportGraph) (n : Iid → Nat) (p q : Process) : Prop where
  segments : q.segments = p.segments
  handlers : ∀ h, g.library h = false → q.injections h = p.injections h
  libraries : ∀ l, g.library l = true → q.injections l = counted n l

/-- Giving one library a new count changes the counts there and nowhere else. -/
private theorem Recounted.set (before : Recounted g n p q) (lib : g.library x = true)
    (others : ∀ l, l ≠ x → m l = n l) (here : counted m x = references) :
    Recounted g m p (q.set x references) := by
  refine ⟨before.segments, fun h handler => ?_, fun l library => ?_⟩
  · have other : h ≠ x := by
      rintro rfl
      rw [lib] at handler
      cases handler
    simpa [Process.set, Function.update_of_ne other] using before.handlers h handler
  · by_cases same : l = x
    · subst same
      simp [Process.set, here]
    · simp [Process.set, Function.update_of_ne same, before.libraries l library, counted, others l same]

private theorem dependency_counts (before : Recounted g n p q) (lib : g.library x = true)
    (protected' : 0 < n g.adbi) :
    ∃ next, dependency g q x = .ok next ∧
      Recounted g (fun l => n l + if l = x then 1 else 0) p next := by
  have found := before.libraries x lib
  refine ⟨q.set x (some (n x + 1)), ?_,
    before.set lib (fun l other => by simp [other]) (by simp [counted])⟩
  by_cases zero : n x = 0
  · have fresh : x ≠ g.adbi := by
      rintro rfl
      omega
    simp only [counted, zero, ↓reduceIte] at found
    simp [dependency, found, inject, fresh, zero, Process.set, bind, Except.bind]
  · simp only [counted, zero, ↓reduceIte] at found
    simp [dependency, found]

/-- Injecting the dependencies adds one reference for every visit. -/
theorem inject_counts (visits : List Iid) (libs : ∀ l ∈ visits, g.library l = true)
    (before : Recounted g n p q) (protected' : 0 < n g.adbi) :
    ∃ next, visits.foldlM (dependency g) q = .ok next ∧
      Recounted g (fun l => n l + visits.count l) p next := by
  induction visits generalizing n q with
  | nil => exact ⟨q, rfl, by simpa using before⟩
  | cons x rest ih =>
    obtain ⟨middle, stepped, counts⟩ := dependency_counts before (libs x List.mem_cons_self) protected'
    obtain ⟨next, folded, final⟩ :=
      ih (fun l member => libs l (List.mem_cons_of_mem _ member)) counts (by omega)
    refine ⟨next, by simp [List.foldlM_cons, stepped, bind, Except.bind, folded], ?_⟩
    have same : (fun l => n l + (x :: rest).count l) =
        fun l => (n l + if l = x then 1 else 0) + rest.count l := by
      funext l
      rw [List.count_cons]
      by_cases equal : x = l
      · simp [equal]
        omega
      · simp [equal, Ne.symm equal]
    rw [same]
    exact final

/-- What removing an unused leaf does: nothing but removing it. -/
def RemovesLeaves (g : ImportGraph) (detach : Process → Iid → Except Fault Process) : Prop :=
  ∀ p x, x ≠ g.adbi → g.deps x = [] → p.injections x = some 0 → detach p x = .ok (p.set x none)

theorem detach_single_removes_leaves (depth : Nat) :
    RemovesLeaves g (injectionDetachSingle g (depth + 1)) := by
  intro p x notAdbi leaf unused
  simp [injectionDetachSingle, notAdbi, unused, iter_leaf leaf, uninject, bind, Except.bind, pure,
    Except.pure]

private theorem dep_uninject_counts (leaves : RemovesLeaves g detach) (before : Recounted g n p q)
    (lib : g.library x = true) (positive : 0 < n x) (kept : x = g.adbi ∨ g.deps x ≠ [] → 1 < n x) :
    ∃ next, depUninject g detach q x = .ok next ∧
      Recounted g (fun l => n l - if l = x then 1 else 0) p next := by
  have found := before.libraries x lib
  obtain ⟨k, count⟩ : ∃ k, n x = k + 1 := ⟨n x - 1, by omega⟩
  simp only [counted, count, Nat.add_one_ne_zero, ↓reduceIte] at found
  have others : ∀ l, l ≠ x → (n l - if l = x then 1 else 0) = n l := fun l other => by simp [other]
  by_cases drop : k = 0 ∧ x ≠ g.adbi
  · have leaf : g.deps x = [] := by
      by_contra imports
      have := kept (.inr imports)
      omega
    refine ⟨q.set x none, ?_, before.set lib others (by simp [counted, count, drop.1])⟩
    have removed := leaves (q.set x (some 0)) x drop.2 leaf (by simp [Process.set])
    simp only [depUninject, found, drop, and_self, ↓reduceIte, ne_eq, not_false_eq_true]
    rw [removed]
    simp [Process.set]
  · have stays : k ≠ 0 := by
      rintro rfl
      have := kept (.inl (by simpa using drop))
      omega
    exact ⟨q.set x (some k), by simp [depUninject, found, drop],
      before.set lib others (by simp [counted, count, stays])⟩

/-- Giving the dependencies back takes one reference for every visit, as long
as `#adbi` and every library with imports stay in use. -/
theorem uninject_counts (visits : List Iid) (leaves : RemovesLeaves g detach)
    (libs : ∀ l ∈ visits, g.library l = true) (before : Recounted g n p q)
    (enough : ∀ l, visits.count l ≤ n l)
    (kept : ∀ l, l = g.adbi ∨ g.deps l ≠ [] → l ∈ visits → visits.count l < n l) :
    ∃ next, visits.foldlM (depUninject g detach) q = .ok next ∧
      Recounted g (fun l => n l - visits.count l) p next := by
  induction visits generalizing n q with
  | nil => exact ⟨q, rfl, by simpa using before⟩
  | cons x rest ih =>
    have count : ∀ l, (x :: rest).count l = rest.count l + if l = x then 1 else 0 := fun l => by
      rw [List.count_cons]
      by_cases equal : x = l
      · simp [equal]
      · simp [equal, Ne.symm equal]
    have here := count x
    simp only [↓reduceIte] at here
    obtain ⟨middle, stepped, counts⟩ :=
      dep_uninject_counts leaves before (libs x List.mem_cons_self)
        (by have := enough x; omega)
        (fun special => by have := kept x special List.mem_cons_self; omega)
    obtain ⟨next, folded, final⟩ :=
      ih (fun l member => libs l (List.mem_cons_of_mem _ member)) counts
        (fun l => by have := enough l; have := count l; omega)
        (fun l special member => by
          have := kept l special (List.mem_cons_of_mem _ member)
          have := count l
          omega)
    refine ⟨next, by simp [List.foldlM_cons, stepped, bind, Except.bind, folded], ?_⟩
    have same : (fun l => n l - (x :: rest).count l) =
        fun l => (n l - if l = x then 1 else 0) - rest.count l := by
      funext l
      have := count l
      omega
    rw [same]
    exact final

/-! ## One operation -/

private theorem handler_ne_adbi (h : Handler g) : h.id ≠ g.adbi := fun same => by
  have bound := h.bound
  rw [same, g.adbi_library] at bound
  cases bound

private theorem recounted_refl (good : Counted g p) : Recounted g (needs g p.segments) p p :=
  ⟨rfl, fun _ _ => rfl, good.shared⟩

/-- The counts of the handlers follow the segments when only `h` changes. -/
private theorem own_of_update (h : Handler g) {q : Process} {segments : List Iid} (good : Counted g p)
    (others : ∀ x, x ≠ h.id → segments.count x = p.segments.count x)
    (handlers : ∀ x, x ≠ h.id → g.library x = false → q.injections x = p.injections x)
    (here : q.injections h.id = counted (fun x => segments.count x) h.id) :
    ∀ x, g.library x = false → q.injections x = counted (fun x => segments.count x) x := by
  intro x handler
  by_cases same : x = h.id
  · rw [same]
    exact here
  · rw [handlers x same handler, good.own x handler]
    simp only [counted, others x same]

private theorem needs_cons_mem (mem : h ∈ segments) : needs g (h :: segments) = needs g segments := by
  funext l
  simp [needs, Finset.insert_eq_of_mem (List.mem_toFinset.mpr mem)]

private theorem needs_cons_not_mem (notMem : h ∉ segments) (l : Iid) :
    needs g (h :: segments) l = needs g segments l + (injectableIterDependencies g h).count l := by
  have fresh : h ∉ segments.toFinset := by simpa using notMem
  simp only [needs, List.toFinset_cons, Finset.sum_insert fresh]
  omega

private theorem instrument_counts (good : Counted g p) (h : Handler g) :
    ∃ next, injectionsInit g p h.id = .ok next ∧ Counted g next := by
  have found := good.own h.id h.bound
  simp only [counted] at found
  have handlers : ∀ x ∈ h.id :: p.segments, g.library x = false := by
    intro x member
    rcases List.mem_cons.mp member with rfl | old
    · exact h.bound
    · exact good.handlers x old
  have counts : ∀ x, x ≠ h.id → (h.id :: p.segments).count x = p.segments.count x :=
    fun x other => List.count_cons_of_ne (Ne.symm other)
  have libraryOther : ∀ l, g.library l = true → l ≠ h.id := by
    rintro l library rfl
    rw [h.bound] at library
    cases library
  by_cases zero : p.segments.count h.id = 0
  · have absent : h.id ∉ p.segments := List.count_eq_zero.mp zero
    rw [if_pos zero] at found
    obtain ⟨q, injected, after⟩ :=
      inject_counts (injectableIterDependencies g h.id) (fun l => iter_libraries) (recounted_refl good)
        (by simp only [needs, ↓reduceIte]; omega)
    refine ⟨{ (q.set h.id (some 0)).set h.id (some 1) with segments := h.id :: q.segments }, ?_, ?_⟩
    · simp [injectionsInit, found, injectDependencies, injected, inject, handler_ne_adbi h, bind,
        Except.bind, Process.set]
    · refine ⟨by simpa [after.segments] using handlers, ?_, fun l library => ?_⟩
      · refine own_of_update h good (by simpa [after.segments] using counts)
          (fun x other handler => ?_) ?_
        · simpa [Process.set, Function.update_of_ne other] using after.handlers x handler
        · simp [Process.set, counted, after.segments, zero]
      · have count := after.libraries l library
        simp only [Process.set, Function.update_of_ne (libraryOther l library), count, counted,
          after.segments, needs_cons_not_mem absent]
  · have present : h.id ∈ p.segments := by
      by_contra absent
      exact zero (List.count_eq_zero.mpr absent)
    rw [if_neg zero] at found
    refine ⟨{ p.set h.id (some (p.segments.count h.id + 1)) with segments := h.id :: p.segments },
      by simp [injectionsInit, found, bind, Except.bind], handlers, ?_, fun l library => ?_⟩
    · refine own_of_update h good counts (fun x other _ => ?_) ?_
      · simp [Process.set, Function.update_of_ne other]
      · simp [Process.set, counted]
    · simp only [Process.set, Function.update_of_ne (libraryOther l library), needs_cons_mem present]
      exact good.shared l library

/-- A handler may be removed when every library with imports that it needs,
other than `#adbi`, is needed by another injected handler too. -/
def Admitted (g : ImportGraph) (p : Process) : Op g → Prop
  | .instrument _ => True
  | .detach h => ∀ l, DependsOn g h.id l → l ≠ g.adbi → g.deps l ≠ [] →
      ∃ other, other ≠ h.id ∧ g.library other = false ∧ p.injections other ≠ none ∧ DependsOn g other l

private theorem segment_of_injected (good : Counted g p) (handler : g.library h = false)
    (injected : p.injections h ≠ none) : h ∈ p.segments := by
  by_contra absent
  rw [good.own h handler] at injected
  simp [counted, List.count_eq_zero.mpr absent] at injected

/-- A segment's handler accounts for its own visits of a library, any other
handler that needs the library for at least one more. -/
private theorem needs_erase (mem : h ∈ segments) (l : Iid) :
    needs g segments l =
      needs g (segments.filter (· ≠ h)) l + (injectableIterDependencies g h).count l := by
  have erased : (segments.filter (· ≠ h)).toFinset = segments.toFinset.erase h := by
    ext x
    simp [and_comm]
  have split := Finset.add_sum_erase segments.toFinset
    (fun x => (injectableIterDependencies g x).count l) (List.mem_toFinset.mpr mem)
  simp only [needs, erased, ← split]
  omega

private theorem needs_pos_of_handler (mem : h ∈ segments) (depends : DependsOn g h l) :
    0 < needs g segments l := by
  have visited := List.count_pos_iff.mpr (mem_iter_iff.mpr depends)
  have := needs_erase (g := g) mem l
  omega

/-- The traversal of a handler that may be removed, with the counts it finds. -/
private theorem detach_single_counts (h : Handler g) (p : Process) (present : h.id ∈ segments)
    (unused : p.injections h.id = some 0)
    (libraries : ∀ l, g.library l = true → p.injections l = counted (needs g segments) l)
    (kept : ∀ l, DependsOn g h.id l → l ≠ g.adbi → g.deps l ≠ [] →
      ∃ other ∈ segments.filter (· ≠ h.id), DependsOn g other l) :
    ∃ next, injectionDetachSingle g (g.rank h.id + 1) p h.id = .ok (next.set h.id none) ∧
      Recounted g (needs g (segments.filter (· ≠ h.id))) p next := by
  have start : Recounted g (needs g segments) p p := ⟨rfl, fun _ _ => rfl, libraries⟩
  have back : (fun l => needs g segments l - (injectableIterDependencies g h.id).count l) =
      needs g (segments.filter (· ≠ h.id)) := by
    funext l
    rw [needs_erase present l]
    omega
  have folded : ∃ next, (injectableIterDependencies g h.id).foldlM
      (depUninject g (injectionDetachSingle g (g.rank h.id))) p = .ok next ∧
      Recounted g (needs g (segments.filter (· ≠ h.id))) p next := by
    rw [← back]
    cases rank : g.rank h.id with
    | zero =>
      rw [iter_leaf (deps_of_rank_zero rank)]
      exact ⟨p, rfl, by simpa using start⟩
    | succ depth =>
      refine uninject_counts _ (detach_single_removes_leaves depth) (fun l => iter_libraries) start ?_ ?_
      · intro l
        rw [needs_erase present l]
        omega
      · intro l special visited
        have rest : 0 < needs g (segments.filter (· ≠ h.id)) l := by
          by_cases base : l = g.adbi
          · simp only [needs, base, ↓reduceIte]
            omega
          · obtain ⟨other, mem, depends⟩ :=
              kept l (mem_iter_iff.mp visited) base (special.resolve_left base)
            exact needs_pos_of_handler mem depends
        rw [needs_erase present l]
        omega
  obtain ⟨next, ran, counts⟩ := folded
  have still : next.injections h.id = some 0 := by rw [counts.handlers h.id h.bound, unused]
  refine ⟨next, ?_, counts⟩
  simp [injectionDetachSingle, handler_ne_adbi h, unused, ran, uninject, still, bind, Except.bind]

private theorem detach_counts (good : Counted g p) (h : Handler g)
    (admitted : Admitted g p (.detach h)) :
    ∃ next, processDetachInjectable g p h.id = .ok next ∧ Counted g next := by
  have found := good.own h.id h.bound
  simp only [counted] at found
  by_cases zero : p.segments.count h.id = 0
  · rw [if_pos zero] at found
    exact ⟨p, by simp [processDetachInjectable, found], good⟩
  · have present : h.id ∈ p.segments := by
      by_contra absent
      exact zero (List.count_eq_zero.mpr absent)
    rw [if_neg zero] at found
    have libraryOther : ∀ l, g.library l = true → l ≠ h.id := by
      rintro l library rfl
      rw [h.bound] at library
      cases library
    obtain ⟨q, detached, after⟩ :=
      detach_single_counts h { p.set h.id (some 0) with segments := p.segments.filter (· ≠ h.id) }
        present
        (by simp [Process.set])
        (fun l library => by
          simpa [Process.set, Function.update_of_ne (libraryOther l library)]
            using good.shared l library)
        (fun l depends notAdbi imports => by
          obtain ⟨other, different, handler, injected, needs⟩ := admitted l depends notAdbi imports
          exact ⟨other, by simp [segment_of_injected good handler injected, different], needs⟩)
    have rest : q.segments = p.segments.filter (· ≠ h.id) := after.segments
    refine ⟨q.set h.id none, by simpa [processDetachInjectable, found] using detached, ?_, ?_, ?_⟩
    · intro x member
      rw [Process.set, rest] at member
      exact good.handlers x (List.mem_of_mem_filter member)
    · refine own_of_update h good (fun x other => ?_) (fun x other handler => ?_) ?_
      · simp [Process.set, rest, List.count_filter, other]
      · have same := after.handlers x handler
        simpa [Process.set, Function.update_of_ne other] using same
      · simp [Process.set, rest, counted, List.count_eq_zero]
    · intro l library
      have count := after.libraries l library
      simpa [Process.set, rest, Function.update_of_ne (libraryOther l library)] using count

/-! ## Whole runs -/

/-- Which injections a process has: a library exactly when an injected
injectable depends on it, and without handlers nothing but `#adbi` with its
own reference. -/
structure Balanced (g : ImportGraph) (p : Process) : Prop where
  libraries : ∀ l, g.library l = true → l ≠ g.adbi →
    (p.injections l ≠ none ↔ ∃ x, p.injections x ≠ none ∧ DependsOn g x l)
  alone : (∀ h, g.library h = false → p.injections h = none) → p.injections = (attached g).injections

private theorem attached_counted (g : ImportGraph) : Counted g (attached g) := by
  refine ⟨by simp [attached], fun h handler => ?_, fun l _ => ?_⟩
  · have other : h ≠ g.adbi := by
      rintro rfl
      rw [g.adbi_library] at handler
      cases handler
    simp [attached, counted, Function.update_of_ne other]
  · by_cases base : l = g.adbi
    · simp [attached, counted, needs, base]
    · simp [attached, counted, needs, base]

/-- A library that is in use is needed by a handler, unless it is `#adbi`. -/
private theorem handler_of_needs (used : needs g segments l ≠ 0) (notAdbi : l ≠ g.adbi) :
    ∃ h ∈ segments, DependsOn g h l := by
  simp only [needs, notAdbi, ↓reduceIte, Nat.zero_add] at used
  obtain ⟨h, mem, visits⟩ := Finset.exists_ne_zero_of_sum_ne_zero used
  exact ⟨h, List.mem_toFinset.mp mem, mem_iter_iff.mp (List.count_pos_iff.mp (by omega))⟩

private theorem balanced_of_counted (good : Counted g p) : Balanced g p := by
  have library_iff : ∀ l, g.library l = true → (p.injections l ≠ none ↔ needs g p.segments l ≠ 0) :=
    fun l library => by
      rw [good.shared l library]
      simp [counted]
  refine ⟨fun l library notAdbi => ?_, fun none => ?_⟩
  · rw [library_iff l library]
    constructor
    · intro used
      obtain ⟨h, mem, depends⟩ := handler_of_needs used notAdbi
      refine ⟨h, ?_, depends⟩
      rw [good.own h (good.handlers h mem)]
      simp [counted, List.count_eq_zero, mem]
    · rintro ⟨x, injected, depends⟩
      cases kind : g.library x with
      | false =>
        have := needs_pos_of_handler (g := g) (segment_of_injected good kind injected) depends
        omega
      | true =>
        -- An injected library that depends on `l` is itself needed by a handler.
        have notBase : x ≠ g.adbi := by
          rintro rfl
          have visited := mem_iter_iff.mpr depends
          rw [iter_leaf g.adbi_imports_nothing] at visited
          cases visited
        obtain ⟨h, mem, through⟩ := handler_of_needs ((library_iff x kind).mp injected) notBase
        have := needs_pos_of_handler (g := g) mem (through.trans depends)
        omega
  · have empty : p.segments = [] := by
      refine List.eq_nil_iff_forall_not_mem.mpr fun h mem => ?_
      have gone := none h (good.handlers h mem)
      rw [good.own h (good.handlers h mem)] at gone
      simp [counted, List.count_eq_zero, mem] at gone
    funext x
    cases kind : g.library x with
    | false => rw [none x kind, (attached_counted g).own x kind]; rfl
    | true =>
      rw [good.shared x kind, (attached_counted g).shared x kind, empty]
      rfl

/-- From `#adbi` alone, every run of handler injections and removals in which a
removed handler leaves no library with imports unused goes through without a
missing injection or a count below zero, and keeps the injections balanced. -/
theorem guarded_runs_keep_references_balanced (g : ImportGraph) (ops : List (Op g))
    (guarded : Guarded (step g) (Admitted g) (attached g) ops) :
    ∃ p, runAll (step g) (attached g) ops = .ok p ∧ Balanced g p := by
  have kept : ∀ p op, Counted g p → Admitted g p op →
      ∃ next, step g p op = .ok next ∧ Counted g next := by
    intro p op good admitted
    cases op with
    | instrument h => exact instrument_counts good h
    | detach h => exact detach_counts good h admitted
  obtain ⟨p, ran, good⟩ := guarded_run_keeps kept (attached_counted g) guarded
  exact ⟨p, ran, balanced_of_counted good⟩

/-- Two handlers, 3 and 4, that import from a library, 2, which itself imports
from another one, 1, and from `#adbi`, 0. -/
def stacked : ImportGraph where
  deps x := if x = 3 ∨ x = 4 then [2] else if x = 2 then [0, 1] else []
  rank x := x
  library x := x ≠ 3 ∧ x ≠ 4
  adbi := 0
  descends x d member := by
    split at member <;> grind
  deps_library x d member := by
    split at member <;> grind
  adbi_library := by decide
  adbi_imports_nothing := by decide

def first : Handler stacked := ⟨3, by decide⟩
def second : Handler stacked := ⟨4, by decide⟩

/-- The first of two handlers of the same library may go. -/
theorem stacked_keeps_balance_for_second :
    ∃ p, runAll (step stacked) (attached stacked)
    [.instrument first, .instrument second, .detach first] = .ok p ∧
      Balanced stacked p := by
  refine guarded_runs_keep_references_balanced stacked _ ⟨trivial,
    fun p one => ⟨trivial, fun q two => ⟨?_, fun _ _ => trivial⟩⟩⟩
  intro l depends _ _
  cases one
  cases two
  have visited : l ∈ injectableIterDependencies stacked first.id := mem_iter_iff.mpr depends
  exact ⟨4, by decide, by decide, by decide, mem_iter_iff.mp visited⟩

/-- The last one may not: giving its dependencies back already removes library
1, and removing library 2 then looks for it again. -/
theorem stacked_misses_dependency_of_unused_library :
    runAll (step stacked) (attached stacked) [.instrument first, .detach first] = .error .missing := by
  rfl

end Adbi.InjectionProofs
