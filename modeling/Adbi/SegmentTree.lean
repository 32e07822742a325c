import Adbi.Lib.LinkedTree

/-! Looking up a segment by an address, from `segment_get` (`process/segment.c`) down to
the nodes of the tree (`tree.h`). Keys and addresses are only compared. A function that
has not ended after as many rounds as its fuel, or that reads a place without a node,
returns `none`; a null pointer is `some none`. -/
namespace Adbi.SegmentTree
open Adbi.Lib

variable {P κ V : Type} [DecidableEq P] [LinearOrder κ]

/-! ## `tree.h` -/

/-- `node_t`; the value is a pointer that may be null. -/
abbrev Memory (P κ V : Type) := NodeMemory P κ (Option V)

/-- The loop of `tree_get_close_node`. -/
def closeLoop (memory : Memory P κ V) (key : κ) : (fuel : Nat) → P → Option P
  | 0, _ => none
  | fuel + 1, p =>
    (memory p).bind fun node =>
      if key = node.key then some p
      else if key < node.key then
        match node.left with
        | some left => closeLoop memory key fuel left
        | none => some p
      else
        match node.right with
        | some right => closeLoop memory key fuel right
        | none => some p

/-- `tree_get_close_node`. -/
def treeGetCloseNode (memory : Memory P κ V) (fuel : Nat) (tree : Option P) (key : κ) :
    Option (Option P) :=
  match tree with
  | none => some none
  | some p => (closeLoop memory key fuel p).map some

/-- The loop of `tree_get_max`. -/
def maxLoop (memory : Memory P κ V) : (fuel : Nat) → P → Option P
  | 0, _ => none
  | fuel + 1, p =>
    (memory p).bind fun node =>
      match node.right with
      | some right => maxLoop memory fuel right
      | none => some p

/-- `tree_get_max`. -/
def treeGetMax (memory : Memory P κ V) (fuel : Nat) (node : Option P) : Option (Option P) :=
  match node with
  | none => some none
  | some p => (maxLoop memory fuel p).map some

/-- The loop of `tree_iter_prev`, with the parent that it returns. -/
def prevLoop (memory : Memory P κ V) : (fuel : Nat) → P → Option (Option P)
  | 0, _ => none
  | fuel + 1, p =>
    (memory p).bind fun node =>
      match node.parent with
      | none => some none
      | some parent =>
        (memory parent).bind fun above =>
          if above.left = some p then prevLoop memory fuel parent else some (some parent)

/-- `tree_iter_prev`. Where there is a left child, it goes to the maximum of the right one. -/
def treeIterPrev (memory : Memory P κ V) (fuel : Nat) (node : Option P) : Option (Option P) :=
  match node with
  | none => some none
  | some p =>
    (memory p).bind fun n => if n.left.isSome then treeGetMax memory fuel n.right
      else prevLoop memory fuel p

/-- `tree_get_node_le`. -/
def treeGetNodeLe (memory : Memory P κ V) (fuel : Nat) (tree : Option P) (key : κ) : Option (Option P) :=
  (treeGetCloseNode memory fuel tree key).bind fun close =>
    match close with
    | none => some none
    | some p =>
      (memory p).bind fun n => if n.key ≤ key then some close else treeIterPrev memory fuel close

/-- `tree_get_le`. -/
def treeGetLe (memory : Memory P κ V) (fuel : Nat) (tree : Option P) (key : κ) : Option (Option V) :=
  (treeGetNodeLe memory fuel tree key).bind fun node =>
    match node with
    | none => some none
    | some p => (memory p).map fun n => n.val

/-! ## `segment.c` -/

/-- What is read of a `segment_t`. -/
structure Segment (Address : Type) where
  start : Address
  stop : Address
  deriving DecidableEq

variable {Address : Type} [LinearOrder Address]

/-- `segment_get`. -/
def segmentGet (memory : Memory P Address (Segment Address)) (fuel : Nat) (segments : Option P)
    (address : Address) :
    Option (Option (Segment Address)) :=
  (treeGetLe memory fuel segments address).map fun segment =>
    match segment with
    | none => none
    | some segment => if segment.stop ≤ address then none else some segment

/-- Three nodes, of which the root is the middle one. -/
private def sample : Memory Nat Nat (Segment Nat) := fun p =>
  [⟨30, some ⟨30, 40⟩, some 1, some 2, none⟩, ⟨10, some ⟨10, 20⟩, none, none, some 0⟩,
    ⟨50, some ⟨50, 60⟩, none, none, some 0⟩][p]?

-- The search ends at the right child and climbs back to the root.
example : segmentGet sample 3 (some 0) 35 = some (some ⟨30, 40⟩) := by decide

/-! ## The tree of a process -/

def Segment.Has (segment : Segment Address) (address : Address) : Prop :=
  segment.start ≤ address ∧ address < segment.stop

/-- The tree `process->segments`: the segments by their start, which have addresses, and
none in common. -/
structure Segments (P Address : Type)
    [LinearOrder Address] extends LinkedTree P Address (Option (Segment Address)) where
  keyed : ∀ node ∈ shape.nodes memory, ∃ segment, node.val = some segment ∧ segment.start = node.key
  nonempty : ∀ node ∈ shape.nodes memory, ∀ segment ∈ node.val, segment.start < segment.stop
  disjoint : ∀ node ∈ shape.nodes memory, ∀ segment ∈ node.val,
    ∀ node' ∈ shape.nodes memory, ∀ segment' ∈ node'.val, ∀ address,
      segment.Has address → segment'.Has address → segment = segment'

/-- The shape of `sample`. -/
private def sampleShape : TreeShape Nat := .node (.node .empty 1 .empty) 0 (.node .empty 2 .empty)

private theorem sample_nodes {node : LinkedNode Nat Nat (Option (Segment Nat))}
    (member : node ∈ sampleShape.nodes sample) :
    node.val = some ⟨node.key, node.key + 10⟩ ∧ (node.key = 10 ∨ node.key = 30 ∨ node.key = 50) := by
  revert node
  decide

/-- The tree of `sample`: three segments with 10 addresses each. -/
def threeSegments : Segments Nat Nat where
  memory := sample
  shape := sampleShape
  linked := ⟨_, rfl, rfl, rfl, rfl, ⟨_, rfl, rfl, rfl, rfl, trivial, trivial⟩,
    ⟨_, rfl, rfl, rfl, rfl, trivial, trivial⟩⟩
  sorted := by
    unfold TreeShape.Sorted
    decide
  keyed node member := ⟨_, (sample_nodes member).1, rfl⟩
  nonempty node member segment holds := by
    rw [(sample_nodes member).1] at holds
    cases holds
    exact Nat.lt_add_of_pos_right (by decide)
  disjoint node member segment holds node' member' segment' holds' address has has' := by
    obtain ⟨value, key⟩ := sample_nodes member
    obtain ⟨value', key'⟩ := sample_nodes member'
    rw [value] at holds
    rw [value'] at holds'
    cases holds
    cases holds'
    simp only [Segment.Has] at has has'
    have same : node.key = node'.key := by omega
    rw [same]

/-- The segments, by their start. -/
def Segments.toList (tree : Segments P Address) : List (Segment Address) :=
  (tree.shape.nodes tree.memory).filterMap (·.val)

instance : Membership (Segment Address) (Segments P Address) where
  mem tree segment := ∃ node ∈ tree.shape.nodes tree.memory, node.val = some segment

end Adbi.SegmentTree
