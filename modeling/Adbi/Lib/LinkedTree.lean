import Adbi.Lib.OrderedTree

/-! Search trees in memory: nodes that point to their children and to their parent. The
shape says which nodes belong to a tree; its entries are those of an `OrderedTree`. -/
namespace Adbi.Lib

/-- A node, with the places of its children and of its parent. -/
structure LinkedNode (P κ α : Type) where
  key : κ
  val : α
  left : Option P
  right : Option P
  parent : Option P
  deriving DecidableEq

/-- What is at a place, if there is a node. -/
abbrev NodeMemory (P κ α : Type) := P → Option (LinkedNode P κ α)

/-- The places of the nodes of a tree. -/
inductive TreeShape (P : Type) where
  | empty
  | node (left : TreeShape P) (place : P) (right : TreeShape P)

namespace TreeShape

variable {P κ α : Type} {memory : NodeMemory P κ α} {parent : Option P} {t l r : TreeShape P} {p : P}

def root : TreeShape P → Option P
  | empty => none
  | node _ p _ => some p

def size : TreeShape P → Nat
  | empty => 0
  | node l _ r => l.size + r.size + 1

/-- The places from left to right. -/
def places : TreeShape P → List P
  | empty => []
  | node l p r => l.places ++ p :: r.places

/-- The nodes point to each other as the shape has it. -/
def Linked (memory : NodeMemory P κ α) (parent : Option P) : TreeShape P → Prop
  | empty => True
  | node l p r => ∃ n, memory p = some n ∧ n.left = l.root ∧ n.right = r.root ∧ n.parent = parent ∧
      l.Linked memory (some p) ∧ r.Linked memory (some p)

/-- The nodes from left to right. -/
def nodes (memory : NodeMemory P κ α) (t : TreeShape P) : List (LinkedNode P κ α) :=
  t.places.filterMap memory

@[simp] theorem nodes_empty : (empty : TreeShape P).nodes memory = [] := rfl

theorem nodes_node {n : LinkedNode P κ α} (here : memory p = some n) :
    (node l p r).nodes memory = l.nodes memory ++ n :: r.nodes memory := by
  simp [nodes, places, here]

/-- The root of a tree is one of its nodes. -/
theorem root_mem (linked : t.Linked memory parent) (rooted : t.root = some p) :
    ∃ n ∈ t.nodes memory, memory p = some n := by
  cases t with
  | empty => exact absurd rooted (by simp [root])
  | node l q r =>
    obtain rfl : q = p := Option.some.inj rooted
    obtain ⟨n, here, _⟩ := linked
    refine ⟨n, ?_, here⟩
    rw [nodes_node here]
    simp

theorem root_eq_none : t.root = none ↔ t = empty := by
  cases t <;> simp [root]

theorem root_parent {n : LinkedNode P κ α} (linked : t.Linked memory parent) (rooted : t.root = some p)
    (there : memory p = some n) : n.parent = parent := by
  cases t with
  | empty => exact absurd rooted (by simp [root])
  | node l q r =>
    obtain rfl : q = p := Option.some.inj rooted
    obtain ⟨m, here, _, _, up, _⟩ := linked
    exact Option.some.inj (here.symm.trans there) ▸ up

theorem length_places (t : TreeShape P) : t.places.length = t.size := by
  induction t with
  | empty => rfl
  | node l p r ihLeft ihRight => simp [places, size, ihLeft, ihRight, Nat.add_assoc]

theorem places_ne_nil (rooted : t.root = some p) : t.places ≠ [] := by
  cases t with
  | empty => cases rooted
  | node l q r => simp [places]

/-- Every place has a node. -/
theorem there (linked : t.Linked memory parent) (member : p ∈ t.places) :
    ∃ n ∈ t.nodes memory, memory p = some n := by
  have some : ∃ n, memory p = some n := by
    induction t generalizing parent with
    | empty => cases member
    | node l q r ihLeft ihRight =>
      obtain ⟨n, here, _, _, _, left, right⟩ := linked
      rcases List.mem_append.mp member with lower | later
      · exact ihLeft left lower
      · rcases List.mem_cons.mp later with rfl | upper
        · exact ⟨n, here⟩
        · exact ihRight right upper
  obtain ⟨n, here⟩ := some
  exact ⟨n, List.mem_filterMap.mpr ⟨p, member, here⟩, here⟩

section Order

variable [LinearOrder κ]

/-- The keys increase from left to right. -/
def Sorted (memory : NodeMemory P κ α) (t : TreeShape P) : Prop :=
  (t.nodes memory).Pairwise fun a b => a.key < b.key

theorem sorted_node {n : LinkedNode P κ α} (here : memory p = some n) :
    (node l p r).Sorted memory ↔ l.Sorted memory ∧ r.Sorted memory ∧
      (∀ a ∈ l.nodes memory, a.key < n.key) ∧ ∀ b ∈ r.nodes memory, n.key < b.key := by
  rw [Sorted, nodes_node here, List.pairwise_append, List.pairwise_cons]
  constructor
  · rintro ⟨lower, ⟨above, upper⟩, across⟩
    exact ⟨lower, upper, fun a member => across a member n List.mem_cons_self, above⟩
  · rintro ⟨lower, upper, below, above⟩
    refine ⟨lower, ⟨above, upper⟩, fun a member b member' => ?_⟩
    rcases List.mem_cons.mp member' with rfl | later
    · exact below a member
    · exact (below a member).trans (above b later)

/-- No node is the left child and the right one. -/
theorem children_differ {n : LinkedNode P κ α} (here : memory p = some n)
    (sorted : (node l p r).Sorted memory)
    (left : l.Linked memory parent) (right : r.Linked memory parent) {q : P} (rooted : r.root = some q) :
    l.root ≠ some q := by
  intro both
  obtain ⟨_, _, below, above⟩ := (sorted_node here).mp sorted
  obtain ⟨a, member, there⟩ := root_mem left both
  obtain ⟨b, member', there'⟩ := root_mem right rooted
  obtain rfl : a = b := Option.some.inj (there.symm.trans there')
  exact absurd (below a member) (not_lt_of_gt (above a member'))

/-- The place of the last node whose key is not above `key`, or `fallback` if there is
none: the way down, which remembers the last node to the left of it. -/
def floor (memory : NodeMemory P κ α) (key : κ) : TreeShape P → (fallback : Option P) → Option P
  | empty, fallback => fallback
  | node l p r, fallback =>
    match memory p with
    | none => fallback
    | some n =>
      if key = n.key then some p
      else if key < n.key then l.floor memory key fallback else r.floor memory key (some p)

/-- There is a node where the way down ends. -/
theorem floor_there {key : κ} (linked : t.Linked memory parent) {fallback : Option P}
    (found : t.floor memory key fallback = some p) : fallback = some p ∨ ∃ n, memory p = some n := by
  induction t generalizing parent fallback with
  | empty => exact .inl found
  | node l q r ihLeft ihRight =>
    obtain ⟨n, here, _, _, _, left, right⟩ := linked
    simp only [floor, here] at found
    split at found
    · exact .inr ⟨n, Option.some.inj found ▸ here⟩
    · split at found
      · exact ihLeft left found
      · rcases ihRight right found with here' | there
        · exact .inr ⟨n, Option.some.inj here' ▸ here⟩
        · exact .inr there

/-- The way down finds the last node of the sorted ones. -/
theorem floor_nodes (key : κ) (linked : t.Linked memory parent) (sorted : t.Sorted memory)
    (fallback : Option P) :
    (t.floor memory key fallback).bind memory =
      ((t.nodes memory).filter fun n => n.key ≤ key).getLast?.or (fallback.bind memory) := by
  induction t generalizing parent fallback with
  | empty => simp [floor]
  | node l p r ihLeft ihRight =>
    obtain ⟨n, here, _, _, _, left, right⟩ := linked
    obtain ⟨lower, upper, below, above⟩ := (sorted_node here).mp sorted
    rw [floor, here, nodes_node here, List.filter_append]
    by_cases down : key < n.key
    · have dropped : (n :: r.nodes memory).filter (fun m => m.key ≤ key) = [] := by
        refine List.filter_eq_nil_iff.mpr fun m member => ?_
        rcases List.mem_cons.mp member with rfl | later
        · simpa using down
        · simpa using down.trans (above m later)
      rw [dropped, List.append_nil]
      simpa only [down.ne, down, if_true, if_false] using ihLeft left lower fallback
    · have kept : (n :: r.nodes memory).filter (fun m => m.key ≤ key) =
          n :: (r.nodes memory).filter (fun m => m.key ≤ key) := by
        rw [List.filter_cons_of_pos (by simpa using down)]
      rw [kept, List.getLast?_append, List.getLast?_cons]
      by_cases same : key = n.key
      · have none : (r.nodes memory).filter (fun m => m.key ≤ key) = [] :=
          List.filter_eq_nil_iff.mpr fun m member => by simpa [same] using above m member
        simp [same ▸ none, same, here]
      · simp only [same, down, if_false]
        rw [ihRight right upper (some p)]
        cases ((r.nodes memory).filter fun m => m.key ≤ key).getLast? <;> simp [here]

end Order

end TreeShape

/-- A search tree in memory. -/
structure LinkedTree (P κ α : Type) [LinearOrder κ] where
  memory : NodeMemory P κ α
  shape : TreeShape P
  linked : shape.Linked memory none
  sorted : shape.Sorted memory

namespace LinkedTree

variable {P κ α : Type} [LinearOrder κ]

/-- The tree as it is seen from outside. -/
def ordered (t : LinkedTree P κ α) : OrderedTree κ α where
  entries := (t.shape.nodes t.memory).map fun n => (n.key, n.val)
  sorted := by
    rw [List.pairwise_map]
    exact t.sorted

/-- The lookup from outside is what the way down finds. -/
theorem ordered_getLe (t : LinkedTree P κ α) (key : κ) :
    t.ordered.getLe key = ((t.shape.floor t.memory key none).bind t.memory).map (·.val) := by
  rw [TreeShape.floor_nodes key t.linked t.sorted, OrderedTree.getLe, ordered, List.filter_map,
    List.getLast?_map,
    Option.map_map]
  simp [Function.comp_def]

end LinkedTree

end Adbi.Lib
