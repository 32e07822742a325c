import Mathlib.Data.Int.Order.Basic

/-! The kinds of instructions in a cache database (`cachereader/insnset.py`), read
through the decorator `rangecachedfn` of `common/deco.py`. -/
namespace Adbi.InsnSet

/-! ## `rangecachedfn` -/

variable {Self : Type} [DecidableEq Self] {V : Type}

/-- The dictionary of the decorator, whose keys are the arguments. -/
abbrev Memo (Self V : Type) := Self → Int → Option V

def Memo.empty : Memo Self V := fun _ _ => none

def Memo.set (memo : Memo Self V) (self : Self) (arg : Int) (rv : V) : Memo Self V :=
  fun self' arg' => if self' = self ∧ arg' = arg then some rv else memo self' arg'

/-- `range(lo, hi)`. -/
def range (lo hi : Int) : List Int := (List.range (hi - lo).toNat).map fun i : Nat => lo + i

/-- `wrapper`. The bounds are returned only where the function is called. -/
def rangecachedfn (fn : Self → Int → V × Int × Int) (memo : Memo Self V) (self : Self) (arg : Int) :
    (V × Option (Int × Int)) × Memo Self V :=
  match memo self arg with
  | some rv => ((rv, none), memo)
  | none =>
    let (rv, lo, hi) := fn self arg
    ((rv, some (lo, hi)),
      if hi ≠ 0 then (range lo hi).foldl (fun memo i => memo.set self i rv) memo
        else memo.set self arg rv)

/-! ## The table -/

structure Row where
  addr : Int
  kind : Int
  deriving DecidableEq

/-- The table `insnset`. -/
structure Table where
  rows : List Row
  distinct : (rows.map (·.addr)).Nodup

/-- `InsnKinds.nocode`. -/
def nocode : Int := 0

/-- The row at or below the address, the last one by address. -/
def Table.below (table : Table) (addr : Int) : Option Row :=
  (table.rows.filter fun row => row.addr ≤ addr).maxOn? (·.addr)

/-- The row above the address, the first one by address. -/
def Table.above (table : Table) (addr : Int) : Option Row :=
  (table.rows.filter fun row => addr < row.addr).minOn? (·.addr)

/-- `get_kind_range` without its decorator. An address that is 0 counts as missing. -/
def queryKindRange (table : Table) (addr : Int) : Int × Int × Int :=
  let res := table.below addr
  let hi := (table.above addr).map (·.addr)
  let kind := match res with
    | some row => row.kind
    | none => nocode
  let lo := match res with
    | some row => row.addr
    | none => 0
  let hi := match hi with
    | some hi => if hi ≠ 0 then hi else addr + 32
    | none => addr + 32
  (kind, lo, hi)

/-- `get_kind_range`, for all objects of the class: the dictionary is that of the function. -/
def getKindRange (tables : Self → Table) : Memo Self Int → Self → Int →
    (Int × Option (Int × Int)) × Memo Self Int :=
  rangecachedfn fun self addr => queryKindRange (tables self) addr

/-- `get_kind`. -/
def getKind (tables : Self → Table) (memo : Memo Self Int) (self : Self) (addr : Nat) :
    Int × Memo Self Int :=
  let ((res, _), memo) := getKindRange tables memo self addr
  (res, memo)

/-- The answers to queries that are made one after the other. -/
def answers (tables : Self → Table) (memo : Memo Self Int) : List (Self × Nat) → List Int
  | [] => []
  | (self, addr) :: queries =>
    let (kind, memo) := getKind tables memo self addr
    kind :: answers tables memo queries

end Adbi.InsnSet
