import Adbi.SegmentTree

/-! A segment is found exactly if it has the address. The search ends at a node next to
the key; where that node is above the key it has no left child, so the step to its
predecessor only climbs. -/
namespace Adbi.SegmentTreeProofs
open Adbi.Lib Adbi.SegmentTree
open Adbi.Lib.TreeShape (Linked Sorted)

section Climb

variable {P κ V : Type} [DecidableEq P] {memory : Memory P κ V}

/-- With fuel for `depth` rounds, climbing from a node leads to `pred`. -/
def Climbs (memory : Memory P κ V) (depth : Nat) (p : P) (pred : Option P) : Prop :=
  ∀ fuel, depth ≤ fuel → prevLoop memory fuel p = some pred

/-- From the root of the tree there is nowhere to climb. -/
theorem climbs_root {p : P} {n : LinkedNode P κ (Option V)} (here : memory p = some n)
    (top : n.parent = none) :
    Climbs memory 1 p none := by
  intro fuel enough
  obtain ⟨fuel, rfl⟩ : ∃ rest, fuel = rest + 1 := ⟨fuel - 1, by omega⟩
  simp [prevLoop, here, top]

/-- From a left child the climb goes on at the parent. -/
theorem climbs_left {p q : P} {n above : LinkedNode P κ (Option V)} (here : memory p = some n)
    (up : n.parent = some q)
    (there : memory q = some above) (left : above.left = some p) {depth : Nat} {pred : Option P}
    (climbs : Climbs memory depth q pred) : Climbs memory (depth + 1) p pred := by
  intro fuel enough
  obtain ⟨fuel, rfl⟩ : ∃ rest, fuel = rest + 1 := ⟨fuel - 1, by omega⟩
  simp [prevLoop, here, up, there, left, climbs fuel (by omega)]

/-- From another child it ends at the parent. -/
theorem climbs_right {p q : P} {n above : LinkedNode P κ (Option V)} (here : memory p = some n)
    (up : n.parent = some q)
    (there : memory q = some above) (right : above.left ≠ some p) : Climbs memory 1 p (some q) := by
  intro fuel enough
  obtain ⟨fuel, rfl⟩ : ∃ rest, fuel = rest + 1 := ⟨fuel - 1, by omega⟩
  simp [prevLoop, here, up, there, right]

end Climb

section Search

variable {P κ V : Type} [DecidableEq P] [LinearOrder κ] {memory : Memory P κ V} {parent : Option P}
  {t : TreeShape P}
  {key : κ}

/-- What `tree_get_node_le` makes of the node that the search ends at. -/
private def leFrom (memory : Memory P κ V) (key : κ) (fuel : Nat) (close : P) : Option (Option P) :=
  (memory close).bind fun n => if n.key ≤ key then some (some close)
    else treeIterPrev memory fuel (some close)

/-- The search in a subtree finds the last node that is not above the key, or the one
before the whole subtree, to which one climbs from its root. -/
private theorem search_floor (linked : t.Linked memory parent) (sorted : t.Sorted memory) {p : P}
    (rooted : t.root = some p)
    {depth : Nat} {pred : Option P} (climbs : Climbs memory depth p pred) {rounds fuel : Nat}
    (enough : t.size ≤ rounds)
    (enough' : depth + t.size ≤ fuel + 1) :
    ∃ close, closeLoop memory key rounds p = some close ∧
      leFrom memory key fuel close = some (t.floor memory key pred) := by
  induction t generalizing parent p depth pred rounds with
  | empty => exact absurd rooted (by simp [TreeShape.root])
  | node l q r ihLeft ihRight =>
    obtain rfl : q = p := Option.some.inj rooted
    obtain ⟨n, here, hasLeft, hasRight, up, left, right⟩ := linked
    obtain ⟨lower, upper, _, _⟩ := (TreeShape.sorted_node here).mp sorted
    simp only [TreeShape.size] at enough enough'
    obtain ⟨rounds, rfl⟩ : ∃ rest, rounds = rest + 1 := ⟨rounds - 1, by omega⟩
    rw [closeLoop, here, Option.bind_some, TreeShape.floor, here]
    by_cases same : key = n.key
    · refine ⟨q, if_pos same, ?_⟩
      simp [leFrom, here, same]
    · by_cases down : key < n.key
      · simp only [same, down, if_false, if_true]
        cases below : l.root with
        | none =>
          obtain rfl : l = .empty := TreeShape.root_eq_none.mp below
          refine ⟨q, by rw [hasLeft, below], ?_⟩
          have above : ¬ n.key ≤ key := not_le.mpr down
          simp [leFrom, here, above, treeIterPrev, hasLeft, below, climbs fuel (by omega),
            TreeShape.floor]
        | some child =>
          obtain ⟨m, _, there⟩ := TreeShape.root_mem left below
          have climbs' := climbs_left there (TreeShape.root_parent left below there) here
            (hasLeft.trans below) climbs
          rw [hasLeft, below]
          exact ihLeft left lower below climbs' (by omega) (by omega)
      · have before : n.key ≤ key := not_lt.mp down
        simp only [same, down, if_false]
        cases below : r.root with
        | none =>
          obtain rfl : r = .empty := TreeShape.root_eq_none.mp below
          refine ⟨q, by rw [hasRight, below], ?_⟩
          simp [leFrom, here, before, TreeShape.floor]
        | some child =>
          obtain ⟨m, _, there⟩ := TreeShape.root_mem right below
          have apart := TreeShape.children_differ here sorted left right below
          rw [← hasLeft] at apart
          have climbs' := climbs_right there (TreeShape.root_parent right below there) here apart
          rw [hasRight, below]
          exact ihRight right upper below climbs' (by omega) (by omega)

/-- `tree_get_node_le` is the way down the tree. -/
theorem tree_get_node_le (linked : t.Linked memory none) (sorted : t.Sorted memory) {fuel : Nat}
    (enough : t.size ≤ fuel) :
    treeGetNodeLe memory fuel t.root key = some (t.floor memory key none) := by
  cases rooted : t.root with
  | none =>
    obtain rfl : t = .empty := TreeShape.root_eq_none.mp rooted
    simp [treeGetNodeLe, treeGetCloseNode, TreeShape.floor]
  | some p =>
    obtain ⟨n, _, here⟩ := TreeShape.root_mem linked rooted
    have climbs := climbs_root here (TreeShape.root_parent linked rooted here)
    have searched : ∃ close, closeLoop memory key fuel p = some close ∧
        leFrom memory key fuel close = some (t.floor memory key none) :=
      search_floor linked sorted rooted climbs enough (by omega)
    obtain ⟨close, found, result⟩ := searched
    simp only [treeGetNodeLe, treeGetCloseNode, found, Option.map_some, Option.bind_some]
    exact result

/-- `tree_get_le` is the lookup of the tree as it is seen from outside. -/
theorem tree_get_le (tree : LinkedTree P κ (Option V)) {fuel : Nat} (enough : tree.shape.size ≤ fuel) :
    treeGetLe tree.memory fuel tree.shape.root key = some (tree.ordered.getLe key).join := by
  rw [treeGetLe, tree_get_node_le tree.linked tree.sorted enough, LinkedTree.ordered_getLe]
  cases found : tree.shape.floor tree.memory key none with
  | none => rfl
  | some p =>
    obtain ⟨n, there⟩ := (TreeShape.floor_there tree.linked found).resolve_left (by simp)
    simp [there]

end Search

section Segments

variable {P Address : Type} [LinearOrder Address] {tree : Segments P Address}
  {segment other : Segment Address}
  {address : Address}

theorem mem_iff : segment ∈ tree ↔ ∃ node ∈ tree.shape.nodes tree.memory, node.val = some segment :=
  Iff.rfl

/-- The entries of the tree are its segments, by their start. -/
theorem mem_entries : (address, some segment) ∈ tree.ordered.entries ↔
    segment ∈ tree ∧ segment.start = address := by
  simp only [LinkedTree.ordered, List.mem_map, mem_iff, Prod.mk.injEq]
  constructor
  · rintro ⟨node, member, key, holds⟩
    obtain ⟨_, holds', start⟩ := tree.keyed node member
    obtain rfl := Option.some.inj (holds.symm.trans holds')
    exact ⟨⟨node, member, holds⟩, start.trans key⟩
  · rintro ⟨⟨node, member, holds⟩, rfl⟩
    obtain ⟨_, holds', start⟩ := tree.keyed node member
    obtain rfl := Option.some.inj (holds.symm.trans holds')
    exact ⟨node, member, start.symm, holds⟩

/-- Segments that have an address in common are the same. -/
theorem eq_of_has (member : segment ∈ tree) (member' : other ∈ tree) (has : segment.Has address)
    (has' : other.Has address) : segment = other := by
  obtain ⟨node, here, holds⟩ := member
  obtain ⟨node', here', holds'⟩ := member'
  exact tree.disjoint node here segment holds node' here' other holds' address has has'

theorem start_has (member : segment ∈ tree) : segment.Has segment.start := by
  obtain ⟨node, here, holds⟩ := member
  exact ⟨le_refl _, tree.nonempty node here segment holds⟩

/-- The segment with the greatest start that is not above the address is the only one
that can have it. -/
theorem has_of_getLe (found : (tree.ordered.getLe address).join = some segment) :
    segment ∈ tree ∧ segment.start ≤ address ∧ ∀ other ∈ tree, other.Has address → other = segment := by
  obtain ⟨start, below, member, greatest⟩ :=
    OrderedTree.getLe_eq_some_iff.mp (Option.join_eq_some_iff.mp found)
  obtain ⟨inside, rfl⟩ := mem_entries.mp member
  refine ⟨inside, below, fun other member' has => ?_⟩
  have under : other.start ≤ segment.start :=
    greatest (other.start, some other) (mem_entries.mpr ⟨member', rfl⟩) has.1
  exact eq_of_has member' inside ⟨under, lt_of_le_of_lt below has.2⟩ (start_has inside)

/-- Where a segment starts at or below the address, the lookup has one. -/
theorem getLe_isSome (member : segment ∈ tree) (below : segment.start ≤ address) :
    ∃ found, (tree.ordered.getLe address).join = some found := by
  cases found : tree.ordered.getLe address with
  | none =>
    have inside : (segment.start, some segment) ∈ tree.ordered.entries.filter fun e => e.1 ≤ address :=
      List.mem_filter.mpr ⟨mem_entries.mpr ⟨member, rfl⟩, decide_eq_true below⟩
    rw [OrderedTree.getLe, Option.map_eq_none_iff, List.getLast?_eq_none_iff] at found
    exact absurd inside (found ▸ List.not_mem_nil)
  | some val =>
    obtain ⟨start, _, entry, _⟩ := OrderedTree.getLe_eq_some_iff.mp found
    obtain ⟨node, here, same⟩ := List.mem_map.mp entry
    obtain ⟨segment', holds, _⟩ := tree.keyed node here
    obtain rfl : node.val = val := congrArg Prod.snd same
    exact ⟨segment', by rw [holds]; rfl⟩

theorem find_iff : (tree.toList.find? fun s => s.start ≤ address ∧ address < s.stop) = some segment ↔
    segment ∈ tree ∧ segment.Has address := by
  have listed (s : Segment Address) : s ∈ tree.toList ↔ s ∈ tree := List.mem_filterMap
  constructor
  · intro found
    have has : segment.start ≤ address ∧ address < segment.stop := by simpa using List.find?_some found
    exact ⟨(listed segment).mp (List.mem_of_find?_eq_some found), has⟩
  · rintro ⟨member, has : segment.start ≤ address ∧ address < segment.stop⟩
    cases found : tree.toList.find? fun s => s.start ≤ address ∧ address < s.stop with
    | none =>
      have missed := List.find?_eq_none.mp found segment ((listed segment).mpr member)
      exact absurd has (by simpa using missed)
    | some other =>
      have has' : other.start ≤ address ∧ address < other.stop := by simpa using List.find?_some found
      rw [eq_of_has ((listed other).mp (List.mem_of_find?_eq_some found)) member has' has]

/-- In memory the lookup is that of the ordered tree. -/
theorem segment_get_ordered [DecidableEq P] (tree : Segments P Address) (address : Address) {fuel : Nat}
    (enough : tree.shape.size ≤ fuel) :
    segmentGet tree.memory fuel tree.shape.root address =
      some ((tree.ordered.getLe address).join.filter fun segment => address < segment.stop) := by
  rw [segmentGet, tree_get_le tree.toLinkedTree enough, Option.map_some, Option.some.injEq]
  cases (tree.ordered.getLe address).join with
  | none => rfl
  | some segment => by_cases beyond : segment.stop ≤ address <;> simp [beyond, Option.filter]

/-- `segment_get` is a lookup among the segments. -/
theorem segment_get_eq [DecidableEq P] (tree : Segments P Address) (address : Address) {fuel : Nat}
    (enough : tree.shape.size ≤ fuel) :
    segmentGet tree.memory fuel tree.shape.root address =
      some (tree.toList.find? fun s => s.start ≤ address ∧ address < s.stop) := by
  rw [segment_get_ordered tree address enough, Option.some.injEq]
  cases found : (tree.ordered.getLe address).join with
  | none =>
    refine (Option.eq_none_iff_forall_ne_some.mpr fun segment has => ?_).symm
    obtain ⟨member, below, _⟩ := find_iff.mp has
    obtain ⟨other, found'⟩ := getLe_isSome member below
    exact absurd (found.symm.trans found') (by simp)
  | some other =>
    obtain ⟨inside, below, only⟩ := has_of_getLe found
    by_cases beyond : other.stop ≤ address
    · rw [Option.filter_some, if_neg (by simpa using beyond)]
      refine (Option.eq_none_iff_forall_ne_some.mpr fun segment has => ?_).symm
      obtain ⟨member, has⟩ := find_iff.mp has
      rw [only segment member has] at has
      exact absurd has.2 (not_lt.mpr beyond)
    · rw [Option.filter_some, if_pos (by simpa using beyond)]
      exact (find_iff.mpr ⟨inside, below, not_le.mp beyond⟩).symm

/-- `segment_get` ends with the one segment that has the address, or with none. -/
theorem segment_get_exact [DecidableEq P] (tree : Segments P Address) (address : Address) :
    ∃ result, (∀ fuel, tree.shape.size ≤ fuel →
      segmentGet tree.memory fuel tree.shape.root address = some result) ∧
      ∀ segment, result = some segment ↔ segment ∈ tree ∧ segment.start ≤ address ∧
      address < segment.stop :=
  ⟨_, fun _ enough => segment_get_eq tree address enough, fun _ => find_iff⟩

end Segments

/-- The address 35 belongs to the middle one of three segments. -/
theorem three_segments_found : segmentGet threeSegments.memory 3 threeSegments.shape.root 35 =
    some (some ⟨30, 40⟩) := by
  obtain ⟨result, ends, owner⟩ := segment_get_exact threeSegments 35
  have member : (⟨30, 40⟩ : Segment Nat) ∈ threeSegments :=
    ⟨⟨30, some ⟨30, 40⟩, some 1, some 2, none⟩, by decide, rfl⟩
  rw [ends 3 (by decide), (owner _).mpr ⟨member, by decide, by decide⟩]

end Adbi.SegmentTreeProofs
