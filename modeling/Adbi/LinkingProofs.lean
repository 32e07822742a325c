import Adbi.Lib.Runs
import Adbi.Linking
import Mathlib.Algebra.Order.BigOperators.Group.List
import Mathlib.Algebra.Order.Group.Nat

/-! What `injectable_get_dependencies` resolves. The tree of dependencies
refuses a library that it already has, and the search looks for an offset above
zero where an export may have the offset zero. -/
namespace Adbi.LinkingProofs
open Adbi.Lib Adbi.Linking

/-- The libraries that the inner loop stops at, import by import. -/
def chosen (s : Loaded) (imports : List Symbol) : List (Nat × Pointer) :=
  imports.filterMap fun symbol => findExporter s symbol.name

/-- The imports for which the inner loop runs to its end. -/
def leftOver (s : Loaded) (imports : List Symbol) : List Symbol :=
  imports.filter fun symbol => (findExporter s symbol.name).isNone

private theorem chosen_cons (symbol : Symbol) (rest : List Symbol) :
    chosen s (symbol :: rest) = (findExporter s symbol.name).toList ++ chosen s rest := by
  cases found : findExporter s symbol.name <;> simp [chosen, found]

/-- A search that comes to its end has put every library it stopped at into the
tree, each of them once. -/
private theorem resolved_of_ok {imports : List Symbol} {res final : Resolution}
    (ran : imports.foldlM (resolveImport s) res = .ok final) :
    (∀ node, node ∈ final.1.entries ↔ node ∈ res.1.entries ∨ node ∈ chosen s imports) ∧
      final.2 = res.2 ++ leftOver s imports ∧ ((chosen s imports).map (·.1)).Nodup ∧
      ∀ node ∈ chosen s imports, res.1.get node.1 = none := by
  induction imports generalizing res with
  | nil =>
    cases ran
    simp [chosen, leftOver]
  | cons symbol rest ih =>
    rw [List.foldlM_cons] at ran
    obtain ⟨middle, stepped, later⟩ := bind_ok ran
    obtain ⟨members, left, distinct, absent⟩ := ih later
    cases found : findExporter s symbol.name with
    | none =>
      simp only [resolveImport, found] at stepped
      cases stepped
      rw [chosen_cons, found]
      refine ⟨members, ?_, distinct, absent⟩
      rw [left]
      simp [leftOver, found]
    | some inj =>
      simp only [resolveImport, found] at stepped
      cases inserted : res.1.tryInsert inj.1 inj.2 with
      | none =>
        simp only [inserted] at stepped
        cases stepped
      | some deps =>
        simp only [inserted] at stepped
        cases stepped
        have apart : ∀ node ∈ chosen s rest, node.1 ≠ inj.1 ∧ res.1.get node.1 = none := by
          intro node member
          have gone := absent node member
          rw [OrderedTree.get_tryInsert inserted] at gone
          split at gone
          · cases gone
          · exact ⟨‹_›, gone⟩
        rw [chosen_cons, found, Option.toList_some, List.singleton_append]
        refine ⟨fun node => ?_, ?_, ?_, ?_⟩
        · rw [members, OrderedTree.mem_tryInsert inserted, List.mem_cons]
          exact ⟨fun h => h.elim (fun h => h.elim (.inr ∘ .inl) .inl) (.inr ∘ .inr),
            fun h => h.elim (.inl ∘ .inr) fun h => h.elim (.inl ∘ .inl) .inr⟩
        · rw [left]
          simp [leftOver, found]
        · refine List.nodup_cons.mpr ⟨fun member => ?_, distinct⟩
          obtain ⟨node, later, same⟩ := List.mem_map.mp member
          exact (apart node later).1 same
        · intro node member
          rcases List.mem_cons.mp member with rfl | later
          · exact OrderedTree.absent_of_tryInsert inserted
          · exact (apart node later).2

/-- The search comes to its end when no library is stopped at twice. -/
private theorem ok_of_distinct {imports : List Symbol} {res : Resolution}
    (distinct : ((chosen s imports).map (·.1)).Nodup)
    (absent : ∀ node ∈ chosen s imports, res.1.get node.1 = none) :
    ∃ final, imports.foldlM (resolveImport s) res = .ok final := by
  induction imports generalizing res with
  | nil => exact ⟨res, rfl⟩
  | cons symbol rest ih =>
    rw [List.foldlM_cons]
    rw [chosen_cons] at distinct absent
    cases found : findExporter s symbol.name with
    | none =>
      rw [found] at distinct absent
      have stepped : resolveImport s res symbol = .ok (res.1, res.2 ++ [symbol]) := by
        simp only [resolveImport, found]
      rw [stepped]
      exact ih distinct absent
    | some inj =>
      rw [found, Option.toList_some, List.singleton_append] at distinct absent
      obtain ⟨notLater, distinct⟩ := List.nodup_cons.mp distinct
      obtain ⟨deps, inserted⟩ :=
        OrderedTree.tryInsert_of_absent (v := inj.2) (absent inj List.mem_cons_self)
      have stepped : resolveImport s res symbol = .ok (deps, res.2) := by
        simp only [resolveImport, found, inserted]
      rw [stepped]
      refine ih distinct fun node member => ?_
      rw [OrderedTree.get_tryInsert inserted, if_neg]
      · exact absent node (List.mem_cons_of_mem _ member)
      · intro same
        exact notLater (List.mem_map.mpr ⟨node, member, same⟩)

/-- What the search returns when it returns. -/
theorem dependencies_of_ok {injectable : Pointer} {res : Resolution}
    (ran : injectableGetDependencies s injectable = .ok res) :
    (∀ node, node ∈ res.1.entries ↔ node ∈ chosen s (s.injfile injectable).imports) ∧
      res.2 = leftOver s (s.injfile injectable).imports ∧
      ((chosen s (s.injfile injectable).imports).map (·.1)).Nodup := by
  obtain ⟨members, left, distinct, -⟩ := resolved_of_ok ran
  exact ⟨fun node => by simpa [OrderedTree.empty] using members node, by simpa using left, distinct⟩

/-- It returns if and only if no two imports stop at one library. -/
theorem dependencies_complete_iff (s : Loaded) (injectable : Pointer) :
    (∃ res, injectableGetDependencies s injectable = .ok res) ↔
      ((chosen s (s.injfile injectable).imports).map (·.1)).Nodup := by
  constructor
  · rintro ⟨res, ran⟩
    exact (dependencies_of_ok ran).2.2
  · intro distinct
    exact ok_of_distinct distinct fun node _ => rfl

/-! ## The library looked for and the one that is found -/

/-- The libraries chosen for the imports that have an exporter. -/
def exporters (s : Loaded) (imports : List Symbol) : List (Nat × Pointer) :=
  imports.filterMap fun symbol => lowestExporter s symbol.name

/-- A library that is found comes at or after the one looked for. -/
private theorem lowest_le_found {name : Payload.CString} (found : findExporter s name = some node) :
    ∃ lowest, lowestExporter s name = some lowest ∧ lowest.1 ≤ node.1 := by
  have member := List.mem_of_find?_eq_some found
  have offset : 0 < injfileGetExport (s.injfile node.2) name := by simpa using List.find?_some found
  have exports : decide (Exports (s.injfile node.2) name) = true := decide_eq_true offset.le
  have some : (lowestExporter s name).isSome := by
    rw [lowestExporter, List.find?_isSome]
    exact ⟨node, member, exports⟩
  obtain ⟨lowest, isLowest⟩ := Option.isSome_iff_exists.mp some
  exact ⟨lowest, isLowest, OrderedTree.find?_le isLowest member exports⟩

/-- The library looked for is found when its export is not at the offset zero. -/
private theorem found_of_lowest {name : Payload.CString} (lowest : lowestExporter s name = some node)
    (offset : injfileGetExport (s.injfile node.2) name ≠ 0) : findExporter s name = some node := by
  have exports : Exports (s.injfile node.2) name := by simpa using List.find?_some lowest
  obtain ⟨_, before, after, split, misses⟩ := List.find?_eq_some_iff_append.mp lowest
  refine List.find?_eq_some_iff_append.mpr ⟨?_, before, after, split, fun other member => ?_⟩
  · simp only [Exports] at exports
    simp only [decide_eq_true_eq]
    omega
  · have missed : ¬Exports (s.injfile other.2) name := by simpa using misses other member
    simp only [Exports] at missed
    simp only [Bool.not_eq_true', decide_eq_false_iff_not]
    omega

/-- No import is served from the offset zero. -/
def OffZero (s : Loaded) (imports : List Symbol) : Prop :=
  ∀ symbol ∈ imports, ∀ node, lowestExporter s symbol.name = some node →
    injfileGetExport (s.injfile node.2) symbol.name ≠ 0

/-- No two imports are served by one library. -/
def ServedApart (s : Loaded) (imports : List Symbol) : Prop := ((exporters s imports).map (·.1)).Nodup

private theorem found_eq_lowest {imports : List Symbol} (offZero : OffZero s imports)
    (member : symbol ∈ imports) :
    findExporter s symbol.name = lowestExporter s symbol.name := by
  cases lowest : lowestExporter s symbol.name with
  | some node => exact found_of_lowest lowest (offZero symbol member node lowest)
  | none =>
    cases found : findExporter s symbol.name with
    | none => rfl
    | some node =>
      obtain ⟨other, isLowest, -⟩ := lowest_le_found found
      rw [lowest] at isLowest
      cases isLowest

private theorem exact_of_served {injectable : Pointer}
    (offZero : OffZero s (s.injfile injectable).imports)
    (apart : ServedApart s (s.injfile injectable).imports) : ResolvesExactly s injectable := by
  have same : chosen s (s.injfile injectable).imports = exporters s (s.injfile injectable).imports :=
    List.filterMap_congr fun symbol member => found_eq_lowest offZero member
  have distinct : ((chosen s (s.injfile injectable).imports).map (·.1)).Nodup := by
    rw [same]
    exact apart
  obtain ⟨⟨deps, unresolved⟩, ran⟩ := (dependencies_complete_iff s injectable).mpr distinct
  obtain ⟨members, left, -⟩ := dependencies_of_ok ran
  refine ⟨deps, unresolved, ran, fun node => ?_, ?_⟩
  · rw [members, same, exporters, List.mem_filterMap]
  · refine left.trans (List.filter_congr fun symbol member => ?_)
    rw [found_eq_lowest offZero member]

/-! ## The other direction: exact results come from the right choices only -/

/-- The id of a library that is there, else 0. -/
def idOf (node : Option (Nat × Pointer)) : Nat := (node.map (·.1)).getD 0

/-- The imports for which a library is found. -/
def resolvedImports (s : Loaded) (imports : List Symbol) : List Symbol :=
  imports.filter fun symbol => (findExporter s symbol.name).isSome

/-- The ids of what a choice gives, over imports that it serves all. -/
private theorem ids_filterMap {imports : List Symbol} (choice : Symbol → Option (Nat × Pointer))
    (same : ∀ symbol ∈ imports, (choice symbol).isSome = (findExporter s symbol.name).isSome) :
    (imports.filterMap choice).map (·.1) = (resolvedImports s imports).map fun symbol =>
    idOf (choice symbol) := by
  induction imports with
  | nil => rfl
  | cons symbol rest ih =>
    have rest := ih fun other member => same other (List.mem_cons_of_mem _ member)
    have here := same symbol List.mem_cons_self
    cases chose : choice symbol with
    | none =>
      rw [chose] at here
      simp only [resolvedImports] at rest ⊢
      rw [List.filterMap_cons_none chose, List.filter_cons_of_neg (by simp [← here]), rest]
    | some node =>
      rw [chose] at here
      simp only [resolvedImports] at rest ⊢
      rw [List.filterMap_cons_some chose, List.filter_cons_of_pos (by simp [← here]), List.map_cons,
        List.map_cons, rest,
        chose]
      rfl

private theorem isSome_eq_of_left {imports : List Symbol}
    (left : leftOver s imports = imports.filter fun symbol => (lowestExporter s symbol.name).isNone)
    (member : symbol ∈ imports) :
    (lowestExporter s symbol.name).isSome = (findExporter s symbol.name).isSome := by
  have both : symbol ∈ leftOver s imports ↔
      symbol ∈ imports.filter fun symbol => (lowestExporter s symbol.name).isNone := by rw [left]
  simp only [leftOver, List.mem_filter, member, true_and, Option.isNone_iff_eq_none] at both
  cases lowest : lowestExporter s symbol.name <;> cases found : findExporter s symbol.name <;> simp_all

private theorem ids_eq_of_exact {injectable : Pointer} (exact : ResolvesExactly s injectable) :
    ((exporters s (s.injfile injectable).imports).map (·.1)).Nodup ∧
      ∀ symbol ∈ resolvedImports s (s.injfile injectable).imports,
        idOf (lowestExporter s symbol.name) = idOf (findExporter s symbol.name) := by
  obtain ⟨deps, unresolved, ran, onlyDeps, onlyUnresolved⟩ := exact
  obtain ⟨members, left, distinct⟩ := dependencies_of_ok ran
  have served : ∀ symbol ∈ (s.injfile injectable).imports,
      (lowestExporter s symbol.name).isSome = (findExporter s symbol.name).isSome :=
    fun _ member => isSome_eq_of_left (left.symm.trans onlyUnresolved) member
  have lowestIds := ids_filterMap (fun symbol => lowestExporter s symbol.name) served
  have foundIds : (chosen s (s.injfile injectable).imports).map (·.1) = _ :=
    ids_filterMap (fun symbol => findExporter s symbol.name) fun _ _ => rfl
  have subset : (chosen s (s.injfile injectable).imports).map (·.1) ⊆
      (exporters s (s.injfile injectable).imports).map (·.1) := by
    refine List.map_subset _ fun node member => ?_
    rw [exporters, List.mem_filterMap]
    exact (onlyDeps node).mp ((members node).mpr member)
  have sameLength : ((exporters s (s.injfile injectable).imports).map (·.1)).length =
      ((chosen s (s.injfile injectable).imports).map (·.1)).length := by
    rw [exporters, lowestIds, foundIds, List.length_map, List.length_map]
  have perm := (List.subperm_of_subset distinct subset).perm_of_length_le sameLength.le
  refine ⟨perm.nodup_iff.mp distinct, fun symbol member => ?_⟩
  by_contra different
  have below : ∀ symbol ∈ resolvedImports s (s.injfile injectable).imports,
      idOf (lowestExporter s symbol.name) ≤ idOf (findExporter s symbol.name) := by
    intro symbol member
    obtain ⟨node, found⟩ := Option.isSome_iff_exists.mp (List.mem_filter.mp member).2
    obtain ⟨lowest, isLowest, le⟩ := lowest_le_found found
    rw [found, isLowest]
    exact le
  have less := List.sum_lt_sum _ _ below ⟨symbol, member, lt_of_le_of_ne (below symbol member) different⟩
  rw [← lowestIds, ← foundIds] at less
  exact absurd perm.sum_eq less.ne'

private theorem offZero_of_exact {injectable : Pointer} (exact : ResolvesExactly s injectable) :
    OffZero s (s.injfile injectable).imports := by
  intro symbol member node lowest
  have ⟨deps, unresolved, ran, _, onlyUnresolved⟩ := exact
  obtain ⟨-, left, -⟩ := dependencies_of_ok ran
  have some := isSome_eq_of_left (left.symm.trans onlyUnresolved) member
  rw [lowest, Option.isSome_some] at some
  obtain ⟨other, found⟩ := Option.isSome_iff_exists.mp some.symm
  have same := (ids_eq_of_exact exact).2 symbol (List.mem_filter.mpr ⟨member, some.symm⟩)
  rw [lowest, found] at same
  have equal : node = other :=
    OrderedTree.entry_unique (List.mem_of_find?_eq_some lowest) (List.mem_of_find?_eq_some found) same
  rw [equal]
  have positive : 0 < injfileGetExport (s.injfile other.2) symbol.name :=
    by simpa using List.find?_some found
  exact positive.ne'

/-- The dependencies are exactly the libraries that serve the imports if and
only if no import is served from the offset zero, which the search takes for no
export, and no two imports are served by one library, which the tree refuses. -/
theorem resolves_exactly_iff (s : Loaded) (injectable : Pointer) :
    ResolvesExactly s injectable ↔
      OffZero s (s.injfile injectable).imports ∧ ServedApart s (s.injfile injectable).imports :=
  ⟨fun exact => ⟨offZero_of_exact exact, (ids_eq_of_exact exact).1⟩,
    fun served => exact_of_served served.1 served.2⟩

/-- A library with its first export at the start of its code, a handler with two
imports from it, and a handler that imports the first export. -/
def oneLibrary : Loaded where
  libraries := .singleton 1 0x1000
  bindings := ⟨[(2, 0x2000), (3, 0x3000)], by simp⟩
  injfile p :=
    if p = 0x1000 then ⟨[], true, [], [], [⟨[0x61#8], 0⟩, ⟨[0x62#8], 4⟩, ⟨[0x63#8], 8⟩], []⟩
    else if p = 0x2000 then ⟨[0x2f#8], false, [], [⟨[0x62#8], 0⟩, ⟨[0x63#8], 16⟩], [], []⟩
    else ⟨[0x2f#8, 0x62#8], false, [], [⟨[0x61#8], 0⟩], [], []⟩
  libraries_library := by simp [OrderedTree.singleton]
  bindings_bound := by simp

/-- Two imports from one library end the server, and an export at the start of
the code is not found. -/
theorem one_library_resolves_inexactly :
    ¬ResolvesExactly oneLibrary 0x2000 ∧ ¬ResolvesExactly oneLibrary 0x3000 := by
  refine ⟨?_, ?_⟩
  · rintro ⟨deps, unresolved, ran, -⟩
    have stopped : injectableGetDependencies oneLibrary 0x2000 = .error .assertion := rfl
    rw [stopped] at ran
    cases ran
  · rintro ⟨deps, unresolved, ran, -, onlyUnresolved⟩
    have reported : injectableGetDependencies oneLibrary 0x3000 = .ok (.empty, [⟨[0x61#8], 0⟩]) := rfl
    rw [reported] at ran
    cases ran
    have served : (oneLibrary.injfile 0x3000).imports.filter
        (fun symbol => (lowestExporter oneLibrary symbol.name).isNone) = [] := rfl
    rw [served] at onlyUnresolved
    cases onlyUnresolved

end Adbi.LinkingProofs
