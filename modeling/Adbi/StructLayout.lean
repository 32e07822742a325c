import Adbi.DeclaratorProofs
import Adbi.Lib.Placement

/-! The C structures that the reader of a cache writes, after `datatype/compound.py`,
`datatype/typedef.py` and `datatype/indirect.py`: their fields, and how much room the C compiler
gives to a variable of a type as it is written. The comments and the names of the paddings are
left out. -/
namespace Adbi.StructLayout
open Adbi.Lib Adbi.Lib.CDecl Adbi.DeclaratorProofs
open Adbi.Declarators (Plain CompoundKind Text)

/-! ## Members -/

/-- A `Member`: where the object is, the offset in bits, and of its type the `byte_size` and what
`sizeof` is in C. -/
structure Member where
  address : Nat
  offset : Nat
  byteSize : Option Nat
  sizeof : Nat
  deriving DecidableEq

/-- The property `members`. Objects without an order of their own are sorted by their addresses. -/
def sortMembers (members : List Member) : List Member :=
  members.mergeSort fun a b => a.address ≤ b.address

/-- A field of a packed structure: padding with its number, or a member. -/
inductive Field where
  | padding (num bytes : Nat)
  | member (m : Member)
  deriving DecidableEq

def Field.size : Field → Nat
  | .padding _ bytes => bytes
  | .member m => m.sizeof

/-- `define_members`, from an offset and a number of paddings on. A `byte_size` that is `None` is a
`TypeError`. -/
def defineMembers : Nat → Nat → List Member → Option (List Field)
  | _, _, [] => some []
  | offset, num, m :: rest =>
    match m.byteSize with
    | none => none
    | some byteSize =>
      if offset < m.offset / 8 then do
        let fields ← defineMembers (m.offset + byteSize) (num + 1) rest
        some (.padding num (m.offset / 8 - offset) :: .member m :: fields)
      else do
        let fields ← defineMembers (offset + byteSize) num rest
        some (.member m :: fields)

/-! ## Types -/

inductive IndirectKind where
  | pointer | reference | rightReference

def IndirectKind.to (inner : Declarators.DataType) : IndirectKind → Declarators.DataType
  | pointer => .pointer inner
  | reference => .reference inner
  | rightReference => .rightReference inner

inductive Modifier where
  | const | volatile | restrict

def Modifier.of (inner : Declarators.DataType) : Modifier → Declarators.DataType
  | const => .const inner
  | volatile => .volatile inner
  | restrict => .restrict inner

/- For a type without an inner type or members the size in C is given. Of what a pointer leads to only
the declarator matters, so that types which lead back to themselves are finite. -/
mutual

inductive DataType where
  | plain (p : Plain) (bytes size : Option Nat)
  | typedef (tid : Nat) (name : Text) (bytes : Option Nat) (inner : DataType)
  | compound (kind : CompoundKind) (tid : Nat) (name : Text) (bytes : Option Nat) (rows : List Row)
  | array (bytes : Option Nat) (dimensions : List (Option Nat)) (inner : DataType)
  | indirect (kind : IndirectKind) (bytes : Option Nat) (inner : Declarators.DataType)
  | modified (modifier : Modifier) (bytes : Option Nat) (inner : DataType)

/-- A row of the table `members`, with the address at which its object will be. -/
inductive Row where
  | mk (address offset : Nat) (name : Option Text) (datatype : DataType)

end

/-- `x or y`. -/
def orElse : Option Nat → Option Nat → Option Nat
  | none, y => y
  | some 0, y => y
  | some (n + 1), _ => some (n + 1)

/-- `reduce(lambda x, y: x * y, dimensions)`, which fails when there are none. -/
def product : List (Option Nat) → Option Nat
  | [] => none
  | first :: rest => some (rest.foldl (fun size d => size * d.getD 0) (first.getD 0))

def DataType.byteSize : DataType → Option Nat
  | .plain _ bytes _ => bytes
  | .typedef _ _ bytes inner => orElse bytes inner.byteSize
  | .compound _ _ _ bytes _ => bytes
  | .array (some bytes) _ _ => some bytes
  | .array none dimensions _ => if none ∈ dimensions then some 4 else product dimensions
  | .indirect _ bytes _ => orElse bytes (some 4)
  | .modified _ bytes inner => orElse bytes inner.byteSize

/-- What `define_var` makes of the type. The lines between the braces of a compound are left out. -/
def DataType.declarator : DataType → Declarators.DataType
  | .plain p _ _ => .plain p
  | .typedef tid name _ _ => .plain (.typedef tid name)
  | .compound kind tid name _ _ => .plain (.compound kind tid name [])
  | .array _ dimensions inner => .array dimensions inner.declarator
  | .indirect kind _ inner => kind.to inner
  | .modified modifier _ inner => modifier.of inner.declarator

/-! ## Sizes in C -/

/-- The size of an object, when a pointer has `word` bytes and what the specifier names has
`specified`. An array with a bound left out has no size, and only pointers may be `restrict`. -/
def sizeofType (word : Nat) (specified : Option Nat) : CType → Option Nat
  | .base _ quals => if quals.isRestrict then none else specified
  | .pointer _ _ => some word
  | .array none _ => none
  | .array (some n) element => (sizeofType word specified element).map (n * ·)

/-- The definition of a variable is C: there is one, its words are names, and they name the type. -/
def Defines (t : Declarators.DataType) : Prop :=
  t.defineVarType.isSome = true ∧ Named t.innermost ∧ Spelt t

instance (name : Text) : Decidable (Identifier name) := inferInstanceAs (Decidable (_ ∧ _ ∧ _))

instance : DecidablePred Named
  | .compound _ _ name _ | .enum _ name _ => inferInstanceAs (Decidable (name = [] ∨ Identifier name))
  | .typedef _ name => inferInstanceAs (Decidable (Identifier name))
  | .void | .int .. | .boolean _ | .char .. | .float _ | .unsupported => .isTrue trivial

instance : DecidablePred Referable
  | .compound _ _ name _ => inferInstanceAs (Decidable (name ≠ []))
  | .enum .. => .isFalse id
  | .void | .int .. | .boolean _ | .char .. | .float _ | .typedef .. | .unsupported => .isTrue trivial

instance : DecidablePred Spelt
  | .plain _ => .isTrue trivial
  | .array dimensions inner =>
    inferInstanceAs (Decidable (Referable (Declarators.DataType.array dimensions inner).innermost))
  | .pointer inner => inferInstanceAs (Decidable (Referable inner.innermost))
  | .reference inner => inferInstanceAs (Decidable (Referable inner.innermost))
  | .rightReference inner => inferInstanceAs (Decidable (Referable inner.innermost))
  | .const inner => inferInstanceAs (Decidable (Referable inner.innermost))
  | .volatile inner => inferInstanceAs (Decidable (Referable inner.innermost))
  | .restrict inner => inferInstanceAs (Decidable (Referable inner.innermost))

instance (t : Declarators.DataType) : Decidable (Defines t) := inferInstanceAs (Decidable (_ ∧ _ ∧ _))

/-- The size of a variable whose definition `define_var` writes. -/
def sizeofVar (word : Nat) (specified : Option Nat) (t : Declarators.DataType) : Option Nat :=
  if Defines t then sizeofType word specified (declared t) else none

/-- Without a name only the members of an unnamed compound become members. -/
def Nameable (name : Option Text) (t : Declarators.DataType) : Prop :=
  match name, t with
  | some name, _ => Identifier name
  | none, .plain (.compound _ _ [] _) => True
  | none, _ => False

instance (name : Option Text) (t : Declarators.DataType) : Decidable (Nameable name t) := by
  unfold Nameable
  split <;> infer_instance

/-- What the fields take: one after the other, or one over the other. -/
def sizeofFields (kind : CompoundKind) (fields : List Field) : Nat :=
  if kind = .union then fields.foldl (fun size f => max size f.size) 0 else roomFor Field.size fields

mutual

/-- The size of what the specifier of a definition names. A compound is the packed one that is
written for it; nothing if that fails. -/
def DataType.specified (word : Nat) : DataType → Option Nat
  | .plain _ _ size => size
  | .typedef _ _ _ inner => sizeofVar word (inner.specified word) inner.declarator
  | .compound kind _ _ _ rows => do
    let members ← membersOf word rows
    let fields ← defineMembers 0 0 (sortMembers members)
    some (sizeofFields kind fields)
  | .array _ _ inner => inner.specified word
  | .indirect .. => none
  | .modified _ _ inner => inner.specified word

/-- The members of the rows. -/
def membersOf (word : Nat) : List Row → Option (List Member)
  | [] => some []
  | row :: rest => do
    let m ← memberOf word row
    let members ← membersOf word rest
    some (m :: members)

def memberOf (word : Nat) : Row → Option Member
  | .mk address offset name datatype =>
    if Nameable name datatype.declarator then
      (sizeofVar word (datatype.specified word) datatype.declarator).map fun size =>
        ⟨address, offset, datatype.byteSize, size⟩
    else none

end

/-- `sizeof` in C. -/
def DataType.sizeof (word : Nat) (t : DataType) : Option Nat :=
  sizeofVar word (t.specified word) t.declarator

/-- The fields of the packed structure for some rows, each with its offset in C. -/
def layout (word : Nat) (rows : List Row) : Option (List (Field × Nat)) := do
  let members ← membersOf word rows
  let fields ← defineMembers 0 0 (sortMembers members)
  some (places Field.size 0 fields)

end Adbi.StructLayout
