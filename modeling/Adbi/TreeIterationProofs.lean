import Adbi.TreeIteration

/-! `TREE_ITER` comes to every node once, by the order of the keys. The step to the
next node goes down the right subtree where there is one, and climbs otherwise, as
long as it comes from the right. -/
namespace Adbi.TreeIterationProofs
open Adbi.Lib Adbi.SegmentTree Adbi.TreeIteration
open Adbi.Lib.TreeShape (Linked Sorted)

variable {P κ V : Type}

/-- A list with an element in the middle, cut at any of its elements. -/
private theorem cut {xs ys before after : List P} {q p : P}
    (split : xs ++ q :: ys = before ++ p :: after) :
    (∃ rest, xs = before ++ p :: rest ∧ after = rest ++ q :: ys) ∨ (q = p ∧ after = ys) ∨
    ∃ rest, ys = rest ++ p :: after := by
  rcases List.append_eq_append_iff.mp split with ⟨c, -, later⟩ | ⟨c, earlier, later⟩
  · cases c with
    | nil =>
      cases later
      exact .inr (.inl ⟨rfl, rfl⟩)
    | cons _ rest =>
      cases later
      exact .inr (.inr ⟨rest, rfl⟩)
  · cases c with
    | nil =>
      cases later
      exact .inr (.inl ⟨rfl, rfl⟩)
    | cons _ rest =>
      cases later
      exact .inl ⟨rest, earlier, rfl⟩

variable {memory : Memory P κ V}

/-! ## Down and up -/

/-- The leftmost node of a subtree. -/
theorem treeGetMin_eq {t : TreeShape P} {parent : Option P} (linked : t.Linked memory parent)
    {fuel : Nat} (enough : t.size ≤ fuel) :
    treeGetMin memory fuel t.root = some t.places.head? := by
  induction t generalizing parent fuel with
  | empty => rfl
  | node l p r ihLeft _ =>
    obtain ⟨n, here, hasLeft, _, _, left, _⟩ := linked
    simp only [TreeShape.size] at enough
    obtain ⟨fuel, rfl⟩ : ∃ rest, fuel = rest + 1 := ⟨fuel - 1, by omega⟩
    have down : treeGetMin memory fuel l.root = some l.places.head? := ihLeft left (by omega)
    show (minLoop memory (fuel + 1) p).map some = _
    rw [minLoop, here, Option.bind_some, hasLeft]
    cases below : l.root with
    | none =>
      obtain rfl : l = .empty := TreeShape.root_eq_none.mp below
      rfl
    | some q =>
      rw [below] at down
      rw [TreeShape.places, List.head?_append_of_ne_nil _ (TreeShape.places_ne_nil below)]
      exact down

section Next

variable [DecidableEq P]

/-- With fuel for `depth` rounds, climbing from a node leads to `succ`. -/
def Climbs (memory : Memory P κ V) (depth : Nat) (p : P) (succ : Option P) : Prop :=
  ∀ fuel, depth ≤ fuel → nextLoop memory fuel p = some succ

section
variable {p q : P} {n above : LinkedNode P κ (Option V)}

theorem climbs_root (here : memory p = some n) (top : n.parent = none) : Climbs memory 1 p none := by
  intro fuel enough
  obtain ⟨fuel, rfl⟩ : ∃ rest, fuel = rest + 1 := ⟨fuel - 1, by omega⟩
  simp [nextLoop, here, top]

/-- From a right child the climb goes on at the parent. -/
theorem climbs_right (here : memory p = some n) (up : n.parent = some q) (there : memory q = some above)
    (right : above.right = some p) {depth : Nat} {succ : Option P}
    (climbs : Climbs memory depth q succ) :
    Climbs memory (depth + 1) p succ := by
  intro fuel enough
  obtain ⟨fuel, rfl⟩ : ∃ rest, fuel = rest + 1 := ⟨fuel - 1, by omega⟩
  simp [nextLoop, here, up, there, right, climbs fuel (by omega)]

/-- From another child it ends at the parent. -/
theorem climbs_left (here : memory p = some n) (up : n.parent = some q) (there : memory q = some above)
    (left : above.right ≠ some p) : Climbs memory 1 p (some q) := by
  intro fuel enough
  obtain ⟨fuel, rfl⟩ : ∃ rest, fuel = rest + 1 := ⟨fuel - 1, by omega⟩
  simp [nextLoop, here, up, there, left]

end

/-! ## The next node -/

variable [LinearOrder κ]

/-- In a subtree, the next node is the one to the right, or the one to which one
climbs from the root of the subtree. -/
private theorem next_within {t : TreeShape P} {parent : Option P} (linked : t.Linked memory parent)
    (sorted : t.Sorted memory)
    {depth : Nat} {succ : Option P}
    (climbs : ∀ root, t.root = some root → Climbs memory depth root succ) {fuel : Nat}
    (enough : depth + t.size ≤ fuel + 1) {before after : List P} {p : P}
    (split : t.places = before ++ p :: after) :
    treeIterNext memory fuel (some p) = some (after.head?.or succ) := by
  induction t generalizing parent depth succ before after with
  | empty => simp [TreeShape.places] at split
  | node l q r ihLeft ihRight =>
    obtain ⟨n, here, hasLeft, hasRight, up, left, right⟩ := linked
    obtain ⟨lower, upper, _, _⟩ := (TreeShape.sorted_node here).mp sorted
    simp only [TreeShape.size] at enough
    rcases cut split with ⟨rest, inside, rfl⟩ | ⟨rfl, rfl⟩ | ⟨rest, inside⟩
    · have first (root : P) (rooted : l.root = some root) : Climbs memory 1 root (some q) := by
        obtain ⟨m, _, there⟩ := TreeShape.root_mem left rooted
        refine climbs_left there (TreeShape.root_parent left rooted there) here ?_
        rw [hasRight]
        intro both
        exact TreeShape.children_differ here sorted left right both rooted
      have next := ihLeft left lower first (by omega) inside
      rw [next]
      cases rest with
      | nil => rfl
      | cons _ _ => rfl
    · simp only [treeIterNext, here, Option.bind_some, hasRight]
      cases below : r.root with
      | none =>
        obtain rfl : r = .empty := TreeShape.root_eq_none.mp below
        exact climbs q rfl fuel (by omega)
      | some root =>
        rw [Option.isSome_some, if_pos rfl, ← below, treeGetMin_eq right (by omega)]
        rw [List.head?_eq_some_head (TreeShape.places_ne_nil below)]
        rfl
    · have later (root : P) (rooted : r.root = some root) : Climbs memory (depth + 1) root succ := by
        obtain ⟨m, _, there⟩ := TreeShape.root_mem right rooted
        exact climbs_right there (TreeShape.root_parent right rooted there) here
          (hasRight.trans rooted) (climbs q rfl)
      exact ihRight right upper later (by omega) inside

theorem treeIterNext_eq {t : TreeShape P} (linked : t.Linked memory none)
    (sorted : t.Sorted memory) {fuel : Nat}
    (enough : t.size ≤ fuel) {before after : List P} {p : P} (split : t.places = before ++ p :: after) :
    treeIterNext memory fuel (some p) = some after.head? := by
  have climbs (root : P) (rooted : t.root = some root) : Climbs memory 1 root none := by
    obtain ⟨n, _, here⟩ := TreeShape.root_mem linked rooted
    exact climbs_root here (TreeShape.root_parent linked rooted here)
  rw [next_within linked sorted climbs (by omega) split, Option.or_none]

/-! ## All nodes -/

/-- From any node on, the loop comes to the rest of the nodes. -/
theorem treeIterFrom_eq {t : TreeShape P} (linked : t.Linked memory none)
    (sorted : t.Sorted memory) {fuel : Nat}
    (enough : t.size ≤ fuel) {before rest : List P} {rounds : Nat}
    (split : t.places = before ++ rest) (room : rest.length ≤ rounds) :
    treeIterFrom memory fuel rounds rest.head? = some rest := by
  induction rest generalizing before rounds with
  | nil => cases rounds <;> rfl
  | cons p rest ih =>
    obtain ⟨rounds, rfl⟩ : ∃ less, rounds = less + 1 := ⟨rounds - 1, by simp at room; omega⟩
    have next := treeIterNext_eq linked sorted enough split
    have later : t.places = (before ++ [p]) ++ rest := by
      rw [split, List.append_assoc]
      rfl
    have room' : rest.length ≤ rounds := Nat.le_of_succ_le_succ room
    rw [List.head?_cons, treeIterFrom, next, Option.bind_some, ih later room']
    rfl

theorem treeIter_eq {t : TreeShape P} (linked : t.Linked memory none) (sorted : t.Sorted memory)
    {fuel : Nat} (enough : t.size ≤ fuel) :
    treeIter memory fuel t.root = some t.places := by
  rw [treeIter, treeIterStart, treeGetMin_eq linked enough, Option.bind_some]
  have whole : t.places = [] ++ t.places := rfl
  exact treeIterFrom_eq linked sorted enough whole (by rwa [TreeShape.length_places])

end Next

/-! ## One key -/

variable [LinearOrder κ]

/-- The place of a node with the key. -/
def at_ (memory : Memory P κ V) (key : κ) (p : P) : Bool := (memory p).any fun n => n.key = key

/-- The search finds the node with the key. -/
theorem treeGetNode_eq {t : TreeShape P} {parent : Option P} (linked : t.Linked memory parent)
    (sorted : t.Sorted memory) {key : κ}
    {fuel : Nat} (enough : t.size ≤ fuel) :
    treeGetNode memory key fuel t.root = some (t.places.find? (at_ memory key)) := by
  induction t generalizing parent fuel with
  | empty => cases fuel <;> rfl
  | node l p r ihLeft ihRight =>
    obtain ⟨n, here, hasLeft, hasRight, _, left, right⟩ := linked
    obtain ⟨lower, upper, below, above⟩ := (TreeShape.sorted_node here).mp sorted
    simp only [TreeShape.size] at enough
    obtain ⟨fuel, rfl⟩ : ∃ rest, fuel = rest + 1 := ⟨fuel - 1, by omega⟩
    have elsewhere {s : TreeShape P} {parent : Option P} (linked : s.Linked memory parent)
        (other : ∀ m ∈ s.nodes memory, m.key ≠ key) :
        s.places.find? (at_ memory key) = none := by
      refine List.find?_eq_none.mpr fun q member => ?_
      obtain ⟨m, inside, there⟩ := TreeShape.there linked member
      simpa [at_, there] using other m inside
    show treeGetNode memory key (fuel + 1) (some p) = _
    rw [treeGetNode, here, Option.bind_some, TreeShape.places, List.find?_append, List.find?_cons]
    rcases lt_trichotomy key n.key with down | same | up
    · have rest := elsewhere right fun m member => (down.trans (above m member)).ne'
      have other : at_ memory key p = false := by simpa [at_, here] using down.ne'
      rw [if_neg down.ne, if_pos down, hasLeft, ihLeft left lower (by omega), other, rest,
        Option.or_none]
    · have first := elsewhere left fun m member => same ▸ (below m member).ne
      have found : at_ memory key p = true := by simpa [at_, here] using same.symm
      rw [if_pos same, first, found]
      rfl
    · have first := elsewhere left fun m member => ((below m member).trans up).ne
      have other : at_ memory key p = false := by simpa [at_, here] using up.ne
      rw [if_neg up.ne', if_neg up.not_gt, hasRight, ihRight right upper (by omega), other, first,
        Option.none_or]

/-! ## Seen from outside -/

/-- The entry that a node is. -/
def entryAt (memory : Memory P κ V) (p : P) : Option (κ × Option V) :=
  (memory p).map fun n => (n.key, n.val)

section

variable {tree : LinkedTree P κ (Option V)}

theorem entries_eq (tree : LinkedTree P κ (Option V)) :
    tree.ordered.entries = tree.shape.places.filterMap (entryAt tree.memory) := by
  show (tree.shape.places.filterMap tree.memory).map _ = _
  rw [List.map_filterMap]
  rfl

theorem get_eq (tree : LinkedTree P κ (Option V)) (key : κ) :
    tree.ordered.get key = ((tree.shape.places.find? (at_ tree.memory key)).bind tree.memory).map
      (·.val) := by
  show (((tree.shape.places.filterMap tree.memory).map fun n => (n.key, n.val)).find? fun e =>
      e.1 = key).map (·.2) = _
  rw [List.find?_map, List.find?_filterMap, Option.map_map]
  rfl

/-- What the loops of the server see of a tree in memory: the tree of its entries. -/
structure Refines [DecidableEq P] (memory : Memory P κ V) (fuel : Nat) (root : Option P)
    (tree : OrderedTree κ (Option V)) : Prop where
  get : ∀ key, treeGet memory fuel root key = some (tree.get key).join
  contains : ∀ key, treeContains memory fuel root key = some (tree.get key).isSome
  start : (treeIterStart memory fuel root).map (·.bind (entryAt memory)) = some tree.first
  next : ∀ key, (tree.get key).isSome = true →
    ((treeGetNode memory key fuel root).bind (treeIterNext memory fuel)).map
      (·.bind (entryAt memory)) = some (tree.next key)
  iter : (treeIter memory fuel root).map (·.filterMap (entryAt memory)) = some tree.entries
  size : treeSize memory fuel root = some (BitVec.ofNat 32 tree.entries.length)

/-- The node that the search finds. -/
private theorem found_there {key : κ} {p : P}
    (found : tree.shape.places.find? (at_ tree.memory key) = some p) :
    p ∈ tree.shape.places ∧ ∃ n, tree.memory p = some n ∧ n.key = key := by
  have member := List.mem_of_find?_eq_some found
  obtain ⟨n, -, there⟩ := TreeShape.there tree.linked member
  have same := List.find?_some found
  rw [at_, there] at same
  exact ⟨member, n, there, of_decide_eq_true same⟩

private theorem head_entry {l : List P} (inside : ∀ p ∈ l, p ∈ tree.shape.places) :
    l.head?.bind (entryAt tree.memory) = (l.filterMap (entryAt tree.memory)).head? := by
  cases l with
  | nil => rfl
  | cons p rest =>
    obtain ⟨n, -, there⟩ := TreeShape.there tree.linked (inside p List.mem_cons_self)
    simp [entryAt, there]

theorem tree_iter_refines [DecidableEq P] (tree : LinkedTree P κ (Option V)) {fuel : Nat}
    (enough : tree.shape.size ≤ fuel) :
    Refines tree.memory fuel tree.shape.root tree.ordered := by
  have search (key : κ) : treeGetNode tree.memory key fuel tree.shape.root =
      some (tree.shape.places.find? (at_ tree.memory key)) :=
    treeGetNode_eq tree.linked tree.sorted enough
  refine ⟨fun key => ?_, fun key => ?_, ?_, fun key present => ?_, ?_, ?_⟩
  · rw [treeGet, search, Option.bind_some, get_eq]
    cases found : tree.shape.places.find? (at_ tree.memory key) with
    | none => rfl
    | some p =>
      obtain ⟨-, n, there, -⟩ := found_there found
      simp [there]
  · rw [treeContains, search, get_eq, Option.map_some]
    cases found : tree.shape.places.find? (at_ tree.memory key) with
    | none => rfl
    | some p =>
      obtain ⟨-, n, there, -⟩ := found_there found
      simp [there]
  · rw [treeIterStart, treeGetMin_eq tree.linked enough, Option.map_some,
      head_entry fun _ member => member, OrderedTree.first,
      entries_eq]
  · rw [get_eq, Option.isSome_map] at present
    obtain ⟨n, got⟩ := Option.isSome_iff_exists.mp present
    obtain ⟨p, found, -⟩ := Option.bind_eq_some_iff.mp got
    obtain ⟨member, n, there, rfl⟩ := found_there found
    obtain ⟨before, after, split⟩ := List.append_of_mem member
    rw [search, found, Option.bind_some, treeIterNext_eq tree.linked tree.sorted enough split,
      Option.map_some]
    have entries : tree.ordered.entries = before.filterMap (entryAt tree.memory) ++
        (n.key, n.val) :: after.filterMap (entryAt tree.memory) := by
      have here : entryAt tree.memory p = some (n.key, n.val) := by rw [entryAt, there, Option.map_some]
      rw [entries_eq, split, List.filterMap_append, List.filterMap_cons_some here]
    rw [OrderedTree.next_of_split entries, head_entry fun q later => ?_]
    rw [split]
    exact List.mem_append_right _ (List.mem_cons_of_mem _ later)
  · rw [treeIter_eq tree.linked tree.sorted enough, Option.map_some, entries_eq]
  · have counted (l : List P) (start : BitVec 32) :
        l.foldl (fun ret _ => ret + 1) start = start + BitVec.ofNat 32 l.length := by
      induction l generalizing start with
      | nil => simp
      | cons p rest ih =>
        rw [List.foldl_cons, ih, List.length_cons, BitVec.ofNat_add, BitVec.add_assoc,
          BitVec.add_comm (BitVec.ofNat 32 _)]
        rfl
    have length : tree.ordered.entries.length = tree.shape.places.length := by
      rw [entries_eq, List.filterMap_length_eq_length]
      intro p member
      obtain ⟨n, -, there⟩ := TreeShape.there tree.linked member
      rw [entryAt, there]
      rfl
    rw [treeSize, treeIter_eq tree.linked tree.sorted enough, Option.map_some, counted, length]
    exact congrArg some (BitVec.zero_add _)

/-- Four nodes; the one with the second key is below the left child, to its right. -/
def fourNodes : LinkedTree Nat Nat (Option Nat) where
  memory p :=
    [⟨30, some 300, some 1, some 2, none⟩, ⟨10, some 100, none, some 3, some 0⟩,
      ⟨50, none, none, none, some 0⟩,
      ⟨20, some 200, none, none, some 1⟩][p]?
  shape := .node (.node .empty 1 (.node .empty 3 .empty)) 0 (.node .empty 2 .empty)
  linked := ⟨_, rfl, rfl, rfl, rfl,
    ⟨_, rfl, rfl, rfl, rfl, trivial, ⟨_, rfl, rfl, rfl, rfl, trivial, trivial⟩⟩,
    ⟨_, rfl, rfl, rfl, rfl, trivial, trivial⟩⟩
  sorted := by
    rw [TreeShape.Sorted]
    decide

theorem four_nodes_visited :
    treeIter fourNodes.memory 4 (some 0) = some [1, 3, 0, 2] ∧
    Refines fourNodes.memory 4 (some 0) fourNodes.ordered := by
  have enough : fourNodes.shape.size ≤ 4 := by decide
  exact ⟨rfl, tree_iter_refines fourNodes enough⟩

end

end Adbi.TreeIterationProofs
