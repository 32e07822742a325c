import Adbi.SegmentTree

/-! Looking up a key in the nodes of a tree and going through all of them, after
`tree.h`: the loops that the server has over its trees. As in `Adbi.SegmentTree`, a
function that needs more rounds than its fuel, or that reads a place without a node,
returns `none`. -/
namespace Adbi.TreeIteration
open Adbi.Lib
open Adbi.SegmentTree (Memory)

variable {P κ V : Type} [DecidableEq P] [LinearOrder κ]

/-- The loop of `tree_get_node`. -/
def treeGetNode (memory : Memory P κ V) (key : κ) : (fuel : Nat) → Option P → Option (Option P)
  | _, none => some none
  | 0, some _ => none
  | fuel + 1, some p =>
    (memory p).bind fun node =>
      if key = node.key then some (some p)
      else treeGetNode memory key fuel (if key < node.key then node.left else node.right)

/-- `tree_get`. -/
def treeGet (memory : Memory P κ V) (fuel : Nat) (tree : Option P) (key : κ) : Option (Option V) :=
  (treeGetNode memory key fuel tree).bind fun node =>
    match node with
    | none => some none
    | some p => (memory p).map fun n => n.val

/-- `tree_contains`. -/
def treeContains (memory : Memory P κ V) (fuel : Nat) (tree : Option P) (key : κ) : Option Bool :=
  (treeGetNode memory key fuel tree).map Option.isSome

/-- The loop of `tree_get_min`. -/
def minLoop (memory : Memory P κ V) : (fuel : Nat) → P → Option P
  | 0, _ => none
  | fuel + 1, p =>
    (memory p).bind fun node =>
      match node.left with
      | some left => minLoop memory fuel left
      | none => some p

/-- `tree_get_min`. -/
def treeGetMin (memory : Memory P κ V) (fuel : Nat) (node : Option P) : Option (Option P) :=
  match node with
  | none => some none
  | some p => (minLoop memory fuel p).map some

/-- `tree_iter_start`. -/
def treeIterStart (memory : Memory P κ V) (fuel : Nat) (tree : Option P) : Option (Option P) :=
  treeGetMin memory fuel tree

/-- The loop of `tree_iter_next`, with the parent that it returns. -/
def nextLoop (memory : Memory P κ V) : (fuel : Nat) → P → Option (Option P)
  | 0, _ => none
  | fuel + 1, p =>
    (memory p).bind fun node =>
      match node.parent with
      | none => some none
      | some parent =>
        (memory parent).bind fun above =>
          if above.right = some p then nextLoop memory fuel parent else some (some parent)

/-- `tree_iter_next`. -/
def treeIterNext (memory : Memory P κ V) (fuel : Nat) (node : Option P) : Option (Option P) :=
  match node with
  | none => some none
  | some p =>
    (memory p).bind fun n => if n.right.isSome then treeGetMin memory fuel n.right
      else nextLoop memory fuel p

/-- The nodes that `TREE_ITER` comes to from a node on, in as many rounds. -/
def treeIterFrom (memory : Memory P κ V) (fuel : Nat) : (rounds : Nat) → Option P → Option (List P)
  | _, none => some []
  | 0, some _ => none
  | rounds + 1, some p =>
    (treeIterNext memory fuel (some p)).bind fun next =>
      (treeIterFrom memory fuel rounds next).map (p :: ·)

/-- The nodes that `TREE_ITER` comes to. -/
def treeIter (memory : Memory P κ V) (fuel : Nat) (tree : Option P) : Option (List P) :=
  (treeIterStart memory fuel tree).bind fun start => treeIterFrom memory fuel fuel start

/-- `tree_size`, which counts in an `unsigned int`. -/
def treeSize (memory : Memory P κ V) (fuel : Nat) (tree : Option P) : Option (BitVec 32) :=
  (treeIter memory fuel tree).map fun nodes => nodes.foldl (fun ret _ => ret + 1) 0

end Adbi.TreeIteration
