import Adbi.Fork
import Adbi.InjectionProofs

/-! When the clone of a forked process is exact. The segments and the linker
breakpoint are copied; the references to the injections are counted anew, and
the jumps are installed anew from the tracepoints, so that both come out as the
parent has them only when they are what counting and installing gives. -/
namespace Adbi.ForkProofs
open Adbi.Injection Adbi.Trampoline Adbi.Fork

variable {K T : Type} {iterReturnAddress : Tracepoint K T → List (Nat × Nat)} {g : ImportGraph}
  {memory parent child : Fork.Process K T}

/-- The child has all that the parent has. -/
structure Exact (parent child : Fork.Process K T) : Prop where
  segments : child.segments = parent.segments.map fun segment => { segment with state := .fresh }
  injections : child.injections = parent.injections
  jumps : child.jumps = parent.jumps
  linker : child.linker = parent.linker
  mode32 : child.mode32 = parent.mode32

/-- The trees of a process have each key once, and what a segment points to is an injection of the
process. -/
structure Formed (parent : Fork.Process K T) : Prop where
  starts : parent.segments.Pairwise fun a b => a.start ≠ b.start
  tracepoints : ∀ segment ∈ parent.segments, segment.tracepoints.Pairwise fun a b => a.1 ≠ b.1
  bound : ∀ segment ∈ parent.segments, ∀ x, segment.injection = some x → parent.injections x ≠ none

/-- How many segments have the handlers of `x`. -/
def boundTo (segments : List (Fork.Segment K T)) (x : Iid) : Nat :=
  (segments.map fun segment => segment.injection).count (some x)

/-- The places of a tracepoint where the server may have a breakpoint, with where it leads to. -/
def sitesOf (iterReturnAddress : Tracepoint K T → List (Nat × Nat)) (tracepoint : Tracepoint K T) :
    List (Nat × Nat) :=
  iterReturnAddress tracepoint ++ [(tracepoint.address, tracepoint.trampoline)]

/-- Those of them at which there are jumps. -/
def jumpSites (iterReturnAddress : Tracepoint K T → List (Nat × Nat)) (jumps : Nat → Option Nat)
    (nodes : List (Nat × Tracepoint K T)) : List (Nat × Nat) :=
  nodes.flatMap fun node => (sitesOf iterReturnAddress node.2).filter fun site =>
  (jumpGet jumps site.1).isSome

/-- All the sites of a process at which it has jumps. -/
def processSites (iterReturnAddress : Tracepoint K T → List (Nat × Nat))
    (parent : Fork.Process K T) : List (Nat × Nat) :=
  parent.segments.flatMap fun segment => jumpSites iterReturnAddress parent.jumps segment.tracepoints

/-- What must hold of a parent for its clone to be exact. -/
structure Clonable (iterReturnAddress : Tracepoint K T → List (Nat × Nat)) (g : ImportGraph)
    (memory parent : Fork.Process K T) : Prop where
  /-- The memory of the new record happens to hold the parent's mode. -/
  mode32 : memory.mode32 = parent.mode32
  /-- Nothing depends on `#adbi`: it has its own reference. -/
  adbi : ∀ injection, parent.injections g.adbi = some injection →
      injection.references = 1 + boundTo parent.segments g.adbi
  /-- No library has handlers. -/
  library : ∀ x, x ≠ g.adbi → g.library x = true → parent.injections x ≠ none →
      boundTo parent.segments x = 0
  /-- A handler has one reference for each segment. -/
  handler : ∀ x, x ≠ g.adbi → g.library x = false → ∀ injection, parent.injections x = some injection →
    injection.references = boundTo parent.segments x
  /-- Every jump belongs to a tracepoint. -/
  owned : ∀ address target, parent.jumps address = some target →
    target ≠ 0 ∧ (address, target) ∈ processSites iterReturnAddress parent
  /-- No place belongs to two. -/
  once : ((processSites iterReturnAddress parent).map Prod.fst).Nodup

/-! ## Installing jumps -/

/-- `jump_install` for a list of sites. -/
def installAll (jumps : Nat → Option Nat) (sites : List (Nat × Nat)) : Option (Nat → Option Nat) :=
  sites.foldlM (fun jumps site => jumpInstall jumps site.1 site.2) jumps

theorem installAll_cons {jumps : Nat → Option Nat} {address target : Nat} {rest : List (Nat × Nat)} :
    installAll jumps ((address, target) :: rest) =
      if jumps address = none then installAll (Function.update jumps address (some target)) rest
        else none := by
  unfold installAll jumpInstall
  rw [List.foldlM_cons]
  cases jumps address <;> simp

private theorem installAll_append {jumps : Nat → Option Nat} {sites more : List (Nat × Nat)} :
    installAll jumps (sites ++ more) = (installAll jumps sites).bind fun jumps =>
    installAll jumps more :=
  List.foldlM_append

/-- Sites that are new and different can be installed, and then they are the jumps. -/
theorem installs (jumps : Nat → Option Nat) {sites : List (Nat × Nat)}
    (once : (sites.map Prod.fst).Nodup)
    (free : ∀ site ∈ sites, jumps site.1 = none) :
    ∃ final, installAll jumps sites = some final ∧
      ∀ address target, final address = some target ↔ (address, target) ∈ sites ∨
      jumps address = some target := by
  induction sites generalizing jumps with
  | nil => exact ⟨jumps, rfl, by simp⟩
  | cons site rest ih =>
    obtain ⟨address, target⟩ := site
    have here := free _ List.mem_cons_self
    obtain ⟨fresh, once⟩ := List.nodup_cons.mp once
    have later : ∀ site ∈ rest, Function.update jumps address (some target) site.1 = none := by
      intro site member
      rw [Function.update_of_ne]
      · exact free site (List.mem_cons_of_mem _ member)
      · exact fun same => fresh (same ▸ List.mem_map.mpr ⟨site, member, rfl⟩)
    obtain ⟨final, installed, jumps'⟩ := ih _ once later
    refine ⟨final, by rw [installAll_cons, if_pos here, installed], fun a t => ?_⟩
    rw [jumps' a t, List.mem_cons, Prod.mk.injEq]
    by_cases same : a = address
    · subst same
      have none : jumps a = none := here
      simp only [Function.update_self, none, reduceCtorEq, or_false, true_and, Option.some.injEq]
      constructor
      · rintro (member | equal)
        · exact .inr member
        · exact .inl equal.symm
      · rintro (equal | member)
        · exact .inr equal.symm
        · exact .inl member
    · simp [same]

/-- Sites that were installed were new and different. -/
theorem installed_once {jumps final : Nat → Option Nat} {sites : List (Nat × Nat)}
    (installed : installAll jumps sites = some final) :
    (sites.map Prod.fst).Nodup ∧ ∀ site ∈ sites, jumps site.1 = none := by
  induction sites generalizing jumps with
  | nil => simp
  | cons site rest ih =>
    obtain ⟨address, target⟩ := site
    rw [installAll_cons] at installed
    split at installed
    · rename_i here
      obtain ⟨once, free⟩ := ih installed
      have apart : ∀ site ∈ rest, site.1 ≠ address := by
        intro site member same
        have := free site member
        rw [same, Function.update_self] at this
        cases this
      constructor
      · rw [List.map_cons, List.nodup_cons]
        refine ⟨fun again => ?_, once⟩
        obtain ⟨site, member, same⟩ := List.mem_map.mp again
        exact apart site member same
      · intro site member
        rcases List.mem_cons.mp member with rfl | member
        · exact here
        · have := free site member
          rwa [Function.update_of_ne (apart site member)] at this
    · cases installed

/-! ## Cloning the segments -/

private theorem sites_installed {parentJumps jumps : Nat → Option Nat} {sites : List (Nat × Nat)} :
    sites.foldlM (fun jumps site =>
      if (jumpGet parentJumps site.1).isSome then jumpInstall jumps site.1 site.2 else some jumps)
        jumps =
      installAll jumps (sites.filter fun site => (jumpGet parentJumps site.1).isSome) := by
  unfold installAll
  rw [List.foldlM_filter]
  rfl

private theorem tracepointFork_eq {parentJumps jumps : Nat → Option Nat}
    {done : List (Nat × Tracepoint K T)}
    {node : Nat × Tracepoint K T} (new : ∀ other ∈ done, other.1 ≠ node.1) :
    tracepointFork iterReturnAddress parentJumps (jumps, done) node =
      (installAll jumps (jumpSites iterReturnAddress parentJumps [node])).map fun jumps =>
      (jumps, done ++ [node]) := by
  have absent : (done.any fun other => other.1 = node.1) = false := by simpa using new
  have split : jumpSites iterReturnAddress parentJumps [node] =
      ((iterReturnAddress node.2).filter fun site => (jumpGet parentJumps site.1).isSome) ++
        [(node.2.address, node.2.trampoline)].filter fun site =>
        (jumpGet parentJumps site.1).isSome := by
    simp [jumpSites, sitesOf]
  unfold tracepointFork
  rw [sites_installed, split, installAll_append]
  simp only [absent, Bool.false_eq_true, ↓reduceIte]
  cases installAll jumps ((iterReturnAddress node.2).filter fun site =>
    (jumpGet parentJumps site.1).isSome) with
  | none => rfl
  | some jumps =>
    cases here : (jumpGet parentJumps node.2.address).isSome <;> simp [here, installAll]
    cases jumpInstall jumps node.2.address node.2.trampoline <;> rfl

private theorem tracepointsFork_fold {parentJumps : Nat → Option Nat} (jumps : Nat → Option Nat)
    (done : List (Nat × Tracepoint K T)) {nodes : List (Nat × Tracepoint K T)}
    (keys : (done ++ nodes).Pairwise fun a b => a.1 ≠ b.1) :
    nodes.foldlM (tracepointFork iterReturnAddress parentJumps) (jumps, done) =
      (installAll jumps (jumpSites iterReturnAddress parentJumps nodes)).map fun jumps =>
      (jumps, done ++ nodes) := by
  induction nodes generalizing jumps done with
  | nil => simp [installAll, jumpSites]
  | cons node rest ih =>
    have new : ∀ other ∈ done, other.1 ≠ node.1 := fun other member =>
      (List.pairwise_append.mp keys).2.2 other member node List.mem_cons_self
    have split : jumpSites iterReturnAddress parentJumps (node :: rest) =
        jumpSites iterReturnAddress parentJumps [node] ++ jumpSites iterReturnAddress
          parentJumps rest := by
      simp [jumpSites]
    rw [List.foldlM_cons, tracepointFork_eq new, split, installAll_append]
    rw [List.append_cons] at keys
    cases installAll jumps (jumpSites iterReturnAddress parentJumps [node]) with
    | none => rfl
    | some jumps => simpa using ih jumps _ keys

/-- References counted anew: what an injection starts with, and one for each segment. -/
def counted (injections : Iid → Option Injected) (segments : List (Fork.Segment K T)) (x : Iid) :
    Option Injected :=
  (injections x).map fun injection =>
  { injection with references := injection.references + boundTo segments x }

private theorem counted_next {injections : Iid → Option Injected} {done : List (Fork.Segment K T)}
    {segment : Fork.Segment K T} (bound : ∀ x, segment.injection = some x → injections x ≠ none)
    (same : child.injections = counted injections done) :
    takeReference child segment.injection =
      some { child with injections := counted injections (done ++ [segment]) } := by
  cases held : segment.injection with
  | none =>
    have unchanged : counted injections (done ++ [segment]) = child.injections := by
      rw [same]
      funext x
      simp [counted, boundTo, held]
    rw [unchanged]
    rfl
  | some x =>
    obtain ⟨injection, has⟩ := Option.ne_none_iff_exists'.mp (bound x held)
    have here : child.injections x =
        some { injection with references := injection.references + boundTo done x } := by
      rw [same, counted, has]
      rfl
    simp only [takeReference, here, Option.bind_eq_bind, Option.bind_some, Option.some.injEq]
    congr 1
    funext y
    by_cases at_ : y = x
    · subst at_
      rw [Function.update_self, counted, has]
      simp [boundTo, held, Nat.add_assoc]
    · rw [Function.update_of_ne at_, same, counted, counted]
      have other : ¬x = y := fun same => at_ same.symm
      simp [boundTo, held, other]

private theorem segment_next {injections : Iid → Option Injected} {done : List (Fork.Segment K T)}
    {segment : Fork.Segment K T} (bound : ∀ x, segment.injection = some x → injections x ≠ none)
    (new : ∀ other ∈ done, other.start ≠ segment.start)
    (keys : segment.tracepoints.Pairwise fun a b => a.1 ≠ b.1)
    (segments : child.segments = done.map fun segment => { segment with state := .fresh })
    (same : child.injections = counted injections done) :
    tracepointsFork iterReturnAddress parent child segment =
      (installAll child.jumps (jumpSites iterReturnAddress parent.jumps segment.tracepoints)).map
        fun jumps =>
        { child with
          jumps := jumps
          segments := (done ++ [segment]).map fun segment => { segment with state := .fresh }
          injections := counted injections (done ++ [segment]) } := by
  have absent : (child.segments.any fun other => other.start = segment.start) = false := by
    rw [segments]
    simpa using new
  unfold tracepointsFork
  rw [counted_next bound same]
  simp only [absent, Bool.false_eq_true, ↓reduceIte, Option.bind_eq_bind, Option.bind_some]
  rw [tracepointsFork_fold child.jumps [] keys]
  cases installAll child.jumps (jumpSites iterReturnAddress parent.jumps segment.tracepoints) with
  | none => rfl
  | some jumps => simp [segmentClone, segments]

private theorem segments_fold (iterReturnAddress : Tracepoint K T → List (Nat × Nat))
    (parent : Fork.Process K T)
    {injections : Iid → Option Injected} (child : Fork.Process K T)
    (done : List (Fork.Segment K T)) {rest : List (Fork.Segment K T)}
    (bound : ∀ segment ∈ rest, ∀ x, segment.injection = some x → injections x ≠ none)
    (starts : (done ++ rest).Pairwise fun a b => a.start ≠ b.start)
    (keys : ∀ segment ∈ rest, segment.tracepoints.Pairwise fun a b => a.1 ≠ b.1)
    (segments : child.segments = done.map fun segment => { segment with state := .fresh })
    (same : child.injections = counted injections done) :
    rest.foldlM (tracepointsFork iterReturnAddress parent) child =
      (installAll child.jumps (rest.flatMap fun segment =>
        jumpSites iterReturnAddress parent.jumps segment.tracepoints)).map
        fun jumps =>
          { child with
            jumps := jumps
            segments := (done ++ rest).map fun segment => { segment with state := .fresh }
            injections := counted injections (done ++ rest) } := by
  induction rest generalizing child done with
  | nil =>
    simp only [List.append_nil, ← segments, ← same]
    rfl
  | cons segment rest ih =>
    have new : ∀ other ∈ done, other.start ≠ segment.start := fun other member =>
      (List.pairwise_append.mp starts).2.2 other member segment List.mem_cons_self
    rw [List.foldlM_cons, segment_next (bound segment List.mem_cons_self) new
      (keys segment List.mem_cons_self) segments same,
      List.flatMap_cons, installAll_append]
    rw [List.append_cons] at starts
    cases installAll child.jumps (jumpSites iterReturnAddress parent.jumps segment.tracepoints) with
    | none => rfl
    | some jumps =>
      have later := ih { child with
          jumps := jumps
          segments := (done ++ [segment]).map fun segment => { segment with state := .fresh }
          injections := counted injections (done ++ [segment]) } _
        (fun segment member => bound segment (List.mem_cons_of_mem _ member)) starts
        (fun segment member => keys segment (List.mem_cons_of_mem _ member)) rfl rfl
      simpa using later

/-- The references that an injection of the child starts with. -/
def initial (g : ImportGraph) (parent : Fork.Process K T) (x : Iid) : Option Injected :=
  (parent.injections x).map fun injection =>
    ⟨injection.address, if x = g.adbi then 1 else if g.library x then injection.references else 0⟩

/-- What the clone of a process is, when its jumps can be installed. -/
theorem processForked_eq (formed : Formed parent) :
    processForked iterReturnAddress g memory parent =
      (installAll (fun _ => none) (processSites iterReturnAddress parent)).map fun jumps =>
        { segments := parent.segments.map fun segment => { segment with state := .fresh }
          injections := counted (initial g parent) parent.segments
          jumps := jumps
          linker := parent.linker
          mode32 := memory.mode32
          stabilizing := false
          spawned := parent.spawned } := by
  have bound : ∀ segment ∈ parent.segments, ∀ x, segment.injection = some x →
      initial g parent x ≠ none := by
    intro segment member x held
    simpa [initial] using formed.bound segment member x held
  have uncounted : (initial g parent) = counted (initial g parent) ([] : List (Fork.Segment K T)) := by
    funext x
    simp [counted, boundTo]
  have folded := segments_fold iterReturnAddress parent
    (Fork.injectionFork g { processCreate memory with spawned := parent.spawned } parent) [] bound
      formed.starts
    formed.tracepoints rfl uncounted
  unfold processForked segmentFork
  simp only [folded]
  simp only [processCreate, Fork.injectionFork, processSites, List.nil_append]
  cases installAll (fun _ => none)
      (parent.segments.flatMap fun segment =>
        jumpSites iterReturnAddress parent.jumps segment.tracepoints) <;> rfl

/-! ## Exact clones -/

private theorem jumpGet_isSome {jumps : Nat → Option Nat} {address : Nat} :
    (jumpGet jumps address).isSome = true ↔ ∃ target, jumps address = some target ∧ target ≠ 0 := by
  unfold jumpGet
  cases jumps address <;> simp

/-- The sites are where the parent has jumps. -/
private theorem site_jumps {site : Nat × Nat} (member : site ∈ processSites iterReturnAddress parent) :
    ∃ target, parent.jumps site.1 = some target ∧ target ≠ 0 := by
  obtain ⟨segment, -, member⟩ := List.mem_flatMap.mp member
  obtain ⟨node, -, member⟩ := List.mem_flatMap.mp member
  exact jumpGet_isSome.mp (List.mem_filter.mp member).2

/-- The jumps of the clone are those of the parent exactly when each of them has one tracepoint. -/
private theorem jumps_exact_iff :
    installAll (fun _ => none) (processSites iterReturnAddress parent) = some parent.jumps ↔
      (∀ address target, parent.jumps address = some target →
        target ≠ 0 ∧ (address, target) ∈ processSites iterReturnAddress parent) ∧
      ((processSites iterReturnAddress parent).map Prod.fst).Nodup := by
  constructor
  · intro installed
    obtain ⟨once, free⟩ := installed_once installed
    obtain ⟨final, installed', jumps⟩ := installs (fun _ => none) once free
    obtain rfl : parent.jumps = final := Option.some.inj (installed.symm.trans installed')
    refine ⟨fun address target has => ?_, once⟩
    have member : (address, target) ∈ processSites iterReturnAddress parent :=
      by simpa using (jumps address target).mp has
    obtain ⟨target', has', positive⟩ := site_jumps member
    obtain rfl : target = target' := Option.some.inj (has.symm.trans has')
    exact ⟨positive, member⟩
  · rintro ⟨owned, once⟩
    obtain ⟨final, installed, jumps⟩ := installs (fun _ => none) once fun _ _ => rfl
    have same : ∀ address target, final address = some target ↔ parent.jumps address = some target := by
      intro address target
      rw [jumps]
      simp only [reduceCtorEq, or_false]
      constructor
      · intro member
        -- What the parent has at the place is a site too, and the place belongs to one tracepoint.
        obtain ⟨target', has, -⟩ := site_jumps member
        have member' := (owned address target' has).2
        have installed' := (jumps address target').mpr (.inl member')
        rw [(jumps address target).mpr (.inl member)] at installed'
        rwa [Option.some.inj installed']
      · exact fun has => (owned address target has).2
    rw [installed]
    congr 1
    funext address
    exact Option.ext fun target => same address target

/-- The references of the clone are those of the parent exactly when the parent has those that
forking gives. -/
private theorem references_exact_iff : counted (initial g parent) parent.segments = parent.injections ↔
    (∀ injection, parent.injections g.adbi = some injection →
      injection.references = 1 + boundTo parent.segments g.adbi) ∧
    (∀ x, x ≠ g.adbi → g.library x = true → parent.injections x ≠ none → boundTo parent.segments x = 0) ∧
    ∀ x, x ≠ g.adbi → g.library x = false → ∀ injection, parent.injections x = some injection →
      injection.references = boundTo parent.segments x := by
  have each : ∀ x, counted (initial g parent) parent.segments x = parent.injections x ↔
      ∀ injection, parent.injections x = some injection →
        (if x = g.adbi then 1 else if g.library x then injection.references else 0) + boundTo
          parent.segments x =
          injection.references := by
    intro x
    unfold counted initial
    cases parent.injections x with
    | none => simp
    | some injection =>
      obtain ⟨address, references⟩ := injection
      simp
  constructor
  · intro same
    have each := fun x => (each x).mp (congrFun same x)
    refine ⟨fun injection has => ?_, fun x other library has => ?_,
      fun x other handler injection has => ?_⟩
    · simpa using (each g.adbi injection has).symm
    · obtain ⟨injection, has⟩ := Option.ne_none_iff_exists'.mp has
      simpa [other, library] using each x injection has
    · simpa [other, handler] using (each x injection has).symm
  · rintro ⟨adbi, library, handler⟩
    funext x
    refine (each x).mpr fun injection has => ?_
    by_cases own : x = g.adbi
    · subst own
      simpa using (adbi injection has).symm
    · cases kind : g.library x with
      | true => simp [own, library x own kind (by simp [has])]
      | false => simpa [own] using (handler x own kind injection has).symm

/-- The clone is exact when counting and installing give what the parent has. -/
private theorem exact_iff_parts (formed : Formed parent) :
    (∃ child, processForked iterReturnAddress g memory parent = some child ∧ Exact parent child) ↔
      memory.mode32 = parent.mode32 ∧ counted (initial g parent) parent.segments = parent.injections ∧
        installAll (fun _ => none) (processSites iterReturnAddress parent) = some parent.jumps := by
  rw [processForked_eq formed]
  constructor
  · rintro ⟨child, forked, exact_⟩
    obtain ⟨jumps, installed, rfl⟩ := Option.map_eq_some_iff.mp forked
    obtain rfl : jumps = parent.jumps := exact_.jumps
    exact ⟨exact_.mode32, exact_.injections, installed⟩
  · rintro ⟨mode32, counts, installed⟩
    exact ⟨_, Option.map_eq_some_iff.mpr ⟨_, installed, rfl⟩, rfl, counts, rfl, rfl, mode32⟩

/-- A forked process is an exact clone of its parent exactly when the references
and the jumps of the parent are those that forking makes, and the mode is found
in the memory of the new record. -/
theorem fork_exact_iff (iterReturnAddress : Tracepoint K T → List (Nat × Nat)) (g : ImportGraph)
    (memory parent : Fork.Process K T) (formed : Formed parent) :
    (∃ child, processForked iterReturnAddress g memory parent = some child ∧ Exact parent child) ↔
      Clonable iterReturnAddress g memory parent := by
  rw [exact_iff_parts formed, references_exact_iff, jumps_exact_iff]
  constructor
  · rintro ⟨mode32, ⟨adbi, library, handler⟩, owned, once⟩
    exact ⟨mode32, adbi, library, handler, owned, once⟩
  · intro clonable
    exact ⟨clonable.mode32, ⟨clonable.adbi, clonable.library, clonable.handler⟩, clonable.owned,
      clonable.once⟩

/-! ## The references of a running process -/

/-- The injections of a process, as their references are counted. -/
def injectionsOf (parent : Fork.Process K T) : Injection.Process where
  injections x := (parent.injections x).map fun injection => injection.references
  segments := parent.segments.filterMap fun segment => segment.injection

private theorem boundTo_eq (segments : List (Fork.Segment K T)) (x : Iid) :
    boundTo segments x = (segments.filterMap fun segment => segment.injection).count x := by
  induction segments with
  | nil => rfl
  | cons segment rest ih =>
    unfold boundTo at ih ⊢
    cases held : segment.injection with
    | none => simp [held, ih]
    | some y => simp [held, ih, List.count_cons]

private theorem references_of {n : Nat} {x : Iid} {injection : Injected}
    (has : parent.injections x = some injection)
    (same : (parent.injections x).map (fun injection => injection.references) =
      InjectionProofs.counted (fun _ => n) x) :
    injection.references = n := by
  rw [has] at same
  unfold InjectionProofs.counted at same
  split at same
  · cases same
  · exact Option.some.inj same

private theorem needs_adbi_iff {segments : List Iid} :
    InjectionProofs.needs g segments g.adbi = 1 ↔
    ∀ h ∈ segments, ¬ InjectionProofs.DependsOn g h g.adbi := by
  unfold InjectionProofs.needs
  simp only [↓reduceIte, Nat.add_eq_left, Finset.sum_eq_zero_iff, List.mem_toFinset, List.count_eq_zero]
  exact forall₂_congr fun h _ => not_congr InjectionProofs.mem_iter_iff

/-- When the references are counted as loading and removing handlers keeps
them, they are cloned exactly as long as no handler depends on `#adbi`. -/
theorem counted_fork_exact_iff (formed : Formed parent)
    (counted : InjectionProofs.Counted g (injectionsOf parent)) :
    (∃ child, processForked iterReturnAddress g memory parent = some child ∧ Exact parent child) ↔
      memory.mode32 = parent.mode32 ∧
      (∀ segment ∈ parent.segments, ∀ h, segment.injection = some h →
        ¬ InjectionProofs.DependsOn g h g.adbi) ∧
      (∀ address target, parent.jumps address = some target →
        target ≠ 0 ∧ (address, target) ∈ processSites iterReturnAddress parent) ∧
      ((processSites iterReturnAddress parent).map Prod.fst).Nodup := by
  have unbound : ∀ x, g.library x = true → boundTo parent.segments x = 0 := by
    intro x library
    rw [boundTo_eq, List.count_eq_zero]
    intro member
    have handler := counted.handlers x member
    rw [library] at handler
    cases handler
  have base : ∀ injection, parent.injections g.adbi = some injection →
      injection.references = InjectionProofs.needs g (injectionsOf parent).segments g.adbi :=
    fun injection has => references_of has (counted.shared g.adbi g.adbi_library)
  have handlers : (∀ segment ∈ parent.segments, ∀ h, segment.injection = some h →
      ¬ InjectionProofs.DependsOn g h g.adbi) ↔
      ∀ h ∈ (injectionsOf parent).segments, ¬ InjectionProofs.DependsOn g h g.adbi := by
    simp only [injectionsOf, List.mem_filterMap]
    exact ⟨fun all h ⟨segment, member, held⟩ => all segment member h held,
      fun all segment member h held => all h ⟨segment, member, held⟩⟩
  rw [exact_iff_parts formed, references_exact_iff, jumps_exact_iff, handlers, ← needs_adbi_iff]
  constructor
  · rintro ⟨mode32, ⟨adbi, -⟩, jumps⟩
    refine ⟨mode32, ?_, jumps⟩
    have present : parent.injections g.adbi ≠ none := by
      intro missing
      have same := counted.shared g.adbi g.adbi_library
      simp [injectionsOf, missing, InjectionProofs.counted, InjectionProofs.needs] at same
    obtain ⟨injection, has⟩ := Option.ne_none_iff_exists'.mp present
    rw [← base injection has, adbi injection has, unbound g.adbi g.adbi_library]
  · rintro ⟨mode32, alone, jumps⟩
    refine ⟨mode32, ⟨fun injection has => ?_, fun x _ library _ => unbound x library,
      fun x _ handler injection has => ?_⟩,
      jumps⟩
    · rw [base injection has, alone, unbound g.adbi g.adbi_library]
    · rw [boundTo_eq]
      exact references_of has (counted.own x handler)

/-! ## A fork that loses a reference -/

/-- A library, 0, from which a handler, 1, imports, while another one, 2, does not. -/
def importing : ImportGraph where
  deps x := if x = 1 then [0] else []
  rank x := x
  library x := x = 0
  adbi := 0
  descends x d member := by
    split at member <;> grind
  deps_library x d member := by
    split at member <;> grind
  adbi_library := by decide
  adbi_imports_nothing := by decide

/-- A page of code with one tracepoint, whose jump is a breakpoint. -/
def tracedPage (handler : Iid) : Fork.Segment Unit Unit :=
  { start := 0x400000, stop := 0x401000, filename := some 1, offset := 0, readable := true, writeable := false,
    executable := true, shared := false, state := .old, injection := some handler,
    tracepoints := [(0x400100, ⟨0x400100, 0x10000000, 0x20000010, 0xe1a00000, (), ()⟩)],
    trampolines := 0x10000000, trampolinesSize := 0x40, trampolineStolen := false }

/-- A process with the page, whose handler is loaded. -/
def tracedProcess (handler : Iid) (base : Nat) : Fork.Process Unit Unit where
  segments := [tracedPage handler]
  injections x := if x = 0 then some ⟨0x30000000, base⟩
    else if x = handler then some ⟨0x20000000, 1⟩ else none
  jumps address := if address = 0x400100 then some 0x10000000 else none
  linker := ⟨0, 0, ()⟩
  mode32 := true
  stabilizing := false
  spawned := false

private theorem tracedProcess_formed (handler : Iid) (base : Nat) :
    Formed (tracedProcess handler base) := by
  refine ⟨List.pairwise_singleton _ _, fun segment member => ?_, fun segment member x held => ?_⟩
  · cases List.mem_singleton.mp member
    exact List.pairwise_singleton _ _
  · cases List.mem_singleton.mp member
    cases held
    simp only [tracedProcess, ↓reduceIte]
    split <;> simp

/-- The clone is exact when the handler imports nothing and the mode is found in the memory. -/
theorem importless_fork_exact : ∃ child,
    processForked (fun _ => []) importing (tracedProcess 2 1) (tracedProcess 2 1) = some child ∧
    Exact (tracedProcess 2 1) child := by
  refine (fork_exact_iff _ _ _ _ (tracedProcess_formed 2 1)).mpr ⟨rfl, ?_, ?_, ?_, ?_, ?_⟩
  · rintro injection ⟨⟩
    rfl
  · intro x other library
    simp [importing] at other library
    exact absurd library other
  · intro x other handler injection has
    simp only [tracedProcess] at has
    split at has
    · rename_i zero
      exact absurd zero other
    · split at has
      · rename_i two
        cases has
        rw [two]
        rfl
      · cases has
  · intro address target has
    simp only [tracedProcess] at has
    split at has
    · rename_i here
      cases has
      rw [here]
      exact ⟨by decide, by decide⟩
    · cases has
  · decide

/-- Loading a handler that imports from `#adbi` gives it a second reference,
and the clone has only one. -/
theorem importing_fork_inexact :
    (injectionsInit importing (attached importing) 1).map (fun p =>
      (p.injections 0, p.injections 1, p.segments)) =
        .ok (some 2, some 1, [1]) ∧
      ¬ ∃ child, processForked (fun _ => []) importing (tracedProcess 1 2)
      (tracedProcess 1 2) = some child ∧
        Exact (tracedProcess 1 2) child := by
  refine ⟨by decide, ?_⟩
  rw [exact_iff_parts (tracedProcess_formed 1 2)]
  rintro ⟨-, counts, -⟩
  exact absurd (congrFun counts 0) (by decide)

end Adbi.ForkProofs
