import Mathlib.Tactic.Common

/-! How the builder of a cache tells types that are the same, after `cachebuilder/datatype.py`.
Entries of the debug information refer to one another by their offsets there. -/
namespace Adbi.TypeCompression

/-! ## Types -/

/-- `TypeKinds`, as far as entries get one. -/
inductive TypeKind where
  | unsupported
  | int | uint | char | uchar | float | bool
  | const | packed | ptr | ref | rref | shared | volatile | restrict | array
  | struct | cls | union
  | typedef | enum
  deriving DecidableEq

def TypeKind.value : TypeKind → Int
  | .unsupported => 0
  | .int => 0x01
  | .uint => 0x02
  | .char => 0x03
  | .uchar => 0x04
  | .float => 0x05
  | .bool => 0x06
  | .const => 0x10
  | .packed => 0x11
  | .ptr => 0x12
  | .ref => 0x13
  | .rref => 0x14
  | .shared => 0x15
  | .volatile => 0x16
  | .restrict => 0x17
  | .array => 0x18
  | .struct => 0x20
  | .cls => 0x21
  | .union => 0x22
  | .typedef => 0x30
  | .enum => 0x31

/-- A `Member`, with its offset in bits. -/
@[ext]
structure Member (ρ : Type) where
  name : Option String
  typeRef : ρ
  offset : Nat
  deriving DecidableEq

structure Enumerator where
  name : Option String
  value : Option Int
  deriving DecidableEq

/-- A `DataType` with references of some kind. Only arrays have dimensions. -/
@[ext]
structure DataType (ρ : Type) where
  kind : TypeKind
  name : Option String
  bytes : Option Nat
  inner : ρ
  members : List (Member ρ)
  enumerators : List Enumerator
  dimensions : List (Option Int)
  arrays : kind ≠ .array → dimensions = []
  deriving DecidableEq

section
variable {ρ σ : Type}

def Member.map (f : ρ → σ) (m : Member ρ) : Member σ := ⟨m.name, f m.typeRef, m.offset⟩

def DataType.map (f : ρ → σ) (t : DataType ρ) : DataType σ :=
  ⟨t.kind, t.name, t.bytes, f t.inner, t.members.map (Member.map f), t.enumerators,
    t.dimensions, t.arrays⟩

end

/-- `DataTypes`: the entries by their offsets. A reference may be missing, or to what is no type. -/
structure DataTypes where
  typemap : List (Nat × DataType (Option Nat))

/-- `TypeReference.resolve`. -/
def DataTypes.resolve (types : DataTypes) (reference : Option Nat) : Option Nat :=
  reference.filter fun offset => (types.typemap.lookup offset).isSome

/-- The type at an offset, with the types that its references resolve to. -/
def DataTypes.datatype (types : DataTypes) (offset : Nat) : Option (DataType (Option Nat)) :=
  (types.typemap.lookup offset).map (DataType.map types.resolve)

/-! ## Serialization -/

/-- What `_hash_list` yields. -/
inductive Item where
  | none
  | int (n : Int)
  | str (s : String)
  deriving DecidableEq

/-- `str(e)`. -/
def Item.text : Item → String
  | .none => "None"
  | .int n => n.repr
  | .str s => s

def Item.ofName : Option String → Item
  | .none => .none
  | some s => .str s

def Item.ofNumber : Option Int → Item
  | .none => .none
  | some n => .int n

def hashHeader {ρ : Type} (t : DataType ρ) : List Item :=
  [.int t.kind.value, .ofName t.name, .ofNumber (t.bytes.map Int.ofNat)]

def hashDimensions : List (Option Int) → List Item
  | [] => []
  | d :: rest => [.str ("x".intercalate ((d :: rest).map fun d => (Item.ofNumber d).text))]

/-- The part in braces (`\x7b` and `\x7d`), which is left out when there is nothing in it. -/
def inBraces : List Item → List Item
  | [] => []
  | item :: rest => .str "\x7b" :: item :: rest ++ [.str "\x7d"]

def hashEnumerators (enumerators : List Enumerator) : List Item :=
  enumerators.flatMap fun e => [.ofName e.name, .str "~", .ofNumber e.value]

section
variable (hash : Nat → List Nat → Option (List Item × List Nat))

def hashInner : Option Nat → List Nat → Option (List Item × List Nat)
  | none, backrefs => some ([], backrefs)
  | some inner, backrefs => do
    let (items, backrefs) ← hash inner backrefs
    some (.str "->" :: items, backrefs)

/-- The loop over the members. One whose type does not resolve is an `AttributeError`. -/
def hashMembers : List (Member (Option Nat)) → List Nat → Option (List Item × List Nat)
  | [], backrefs => some ([], backrefs)
  | m :: rest, backrefs => do
    let datatype ← m.typeRef
    let (items, backrefs) ← hash datatype backrefs
    let (later, backrefs) ← hashMembers rest backrefs
    some (.ofName m.name :: .str "~" :: items ++ later, backrefs)

end

/-- `_hash_list`. The dictionary `backrefs` numbers the types in the order in which they are visited. -/
def hashList (types : DataTypes) : Nat → Nat → List Nat → Option (List Item × List Nat)
  | 0, _, _ => none
  | depth + 1, self, backrefs =>
    if self ∈ backrefs then some ([.str ("%%" ++ (backrefs.idxOf self).repr)], backrefs)
    else do
      let t ← types.datatype self
      let (inner, backrefs) ← hashInner (hashList types depth) t.inner (backrefs ++ [self])
      let (members, backrefs) ← hashMembers (hashList types depth) t.members backrefs
      some (hashHeader t ++ inner ++ hashDimensions t.dimensions ++ inBraces members ++
        inBraces (hashEnumerators t.enumerators),
        backrefs)

/-- The string that is hashed in `typehash`. Every level of the recursion but the last visits
another type, so that it cannot be deeper than this. -/
def hashString (types : DataTypes) (self : Nat) : Option String :=
  (hashList types (types.typemap.length + 1) self []).map fun (items, _) =>
  ":".intercalate (items.map Item.text)

end Adbi.TypeCompression
