import Adbi.TypeCompression
import Adbi.Lib.Correspondence

/-! When types are the same: by a correspondence of what they reach that keeps all there is to
an entry. It may be given by pairs of types that are in step. -/
namespace Adbi.SameTypes
open Adbi.Lib Adbi.TypeCompression

/-! ## The same type -/

section
variable {ρ σ : Type}

def forgetOffsets (t : DataType ρ) : DataType ρ :=
  { t with members := t.members.map fun m => { m with offset := 0 } }

/-- The types that a type refers to: the inner one and those of its members. -/
def references (t : DataType (Option Nat)) : List Nat :=
  t.inner.toList ++ t.members.filterMap Member.typeRef

def next (types : DataTypes) (t : Nat) : List Nat := ((types.datatype t).map references).getD []

/-- A map between what `t` and what `u` reach, by which the types are the same in some view. -/
structure Isomorphism (view : DataType (Option Nat) → DataType (Option Nat)) (types : DataTypes)
    (f : Nat → Nat) (t u : Nat) :
    Prop where
  root : f t = u
  bijective : Set.BijOn f {a | Reaches (next types) t a} {b | Reaches (next types) u b}
  preserved : ∀ a, Reaches (next types) t a →
    (types.datatype (f a)).map view = (types.datatype a).map fun entry => view (entry.map (Option.map f))

def SameType (types : DataTypes) (t u : Nat) : Prop := ∃ f, Isomorphism id types f t u

/-- The offsets of the members of a type. -/
def offsets (types : DataTypes) (t : Nat) : List Nat :=
  ((types.datatype t).map fun entry => entry.members.map Member.offset).getD []

/-- Every member that `t` reaches has a type. -/
def Complete (types : DataTypes) (t : Nat) : Prop :=
  ∀ a entry, Reaches (next types) t a → types.datatype a = some entry →
  ∀ m ∈ entry.members, m.typeRef ≠ none

/-- The claim of two types. -/
def Sound (types : DataTypes) (t u : Nat) : Prop :=
  ∀ text, hashString types t = some text → hashString types u = some text → SameType types t u

/-- Where the types are the same but for offsets, the offsets are the same. -/
def Aligned (types : DataTypes) (t u : Nat) : Prop :=
  Complete types t → ∀ f, Isomorphism forgetOffsets types f t u →
    ∀ a, Reaches (next types) t a → offsets types (f a) = offsets types a

@[simp] theorem references_map (f : Nat → Nat) (t : DataType (Option Nat)) :
    references (t.map (Option.map f)) = (references t).map f := by
  rw [references, references, List.map_append]
  congr 1
  · show (t.inner.map f).toList = t.inner.toList.map f
    cases t.inner <;> rfl
  · rw [DataType.map, List.filterMap_map, List.map_filterMap]
    rfl

@[simp] theorem references_forgetOffsets (t : DataType (Option Nat)) :
    references (forgetOffsets t) = references t := by
  rw [references, forgetOffsets, List.filterMap_map]
  rfl

theorem Isomorphism.follows {view : DataType (Option Nat) → DataType (Option Nat)}
    {types : DataTypes} {f : Nat → Nat}
    {t u : Nat}
    (same : ∀ entry, references (view entry) = references entry) (iso : Isomorphism view types f t u) :
    Follows (next types) (next types) f t := by
  intro a reach
  have preserved := congrArg (Option.map references) (iso.preserved a reach)
  simp only [Option.map_map, Function.comp_def, same, references_map] at preserved
  rw [next, next, preserved]
  cases types.datatype a <;> rfl

theorem offsets_map {f : Nat → Nat} {a : DataType (Option Nat)} :
    (a.map (Option.map f)).members.map Member.offset = a.members.map Member.offset := by
  rw [DataType.map, List.map_map]
  rfl

theorem Isomorphism.offsets_eq {types : DataTypes} {f : Nat → Nat} {t u x : Nat}
    (iso : Isomorphism id types f t u)
    (reach : Reaches (next types) t x) :
    offsets types (f x) = offsets types x := by
  have preserved := iso.preserved x reach
  rw [Option.map_id, id_eq] at preserved
  rw [offsets, offsets, preserved]
  cases types.datatype x with
  | none => rfl
  | some a => exact offsets_map

end

/-! ## Types in step -/

section
variable {types : DataTypes} {pairs more : List (Nat × Nat)}

/-- Two members of one name with types that are paired. -/
def Paired (pairs : List (Nat × Nat)) (m n : Member (Option Nat)) : Prop :=
  m.name = n.name ∧ ∃ p ∈ pairs, m.typeRef = some p.1 ∧ n.typeRef = some p.2

/-- Two types are the same but for offsets, with what they refer to paired. -/
structure Alike (pairs : List (Nat × Nat)) (a b : DataType (Option Nat)) : Prop where
  kind : a.kind = b.kind
  name : a.name = b.name
  bytes : a.bytes = b.bytes
  inner : Option.Rel (fun x y => (x, y) ∈ pairs) a.inner b.inner
  members : List.Forall₂ (Paired pairs) a.members b.members
  enumerators : a.enumerators = b.enumerators
  dimensions : a.dimensions = b.dimensions

def AlikeIn (types : DataTypes) (pairs : List (Nat × Nat)) (p : Nat × Nat) : Prop :=
  ∃ a b, types.datatype p.1 = some a ∧ types.datatype p.2 = some b ∧ Alike pairs a b

theorem toList_of_rel {x y : Option Nat} (rel : Option.Rel (fun x y => (x, y) ∈ pairs) x y) :
    List.Forall₂ (fun x y => (x, y) ∈ pairs) x.toList y.toList := by
  cases rel with
  | some member => exact .cons member .nil
  | none => exact .nil

theorem Paired.rel {m n : Member (Option Nat)} (paired : Paired pairs m n) :
    Option.Rel (fun x y => (x, y) ∈ pairs) m.typeRef n.typeRef := by
  obtain ⟨-, p, member, first, second⟩ := paired
  rw [first, second]
  exact .some member

theorem Alike.references {a b : DataType (Option Nat)} (alike : Alike pairs a b) :
    List.Forall₂ (fun x y => (x, y) ∈ pairs) (references a) (references b) :=
  List.rel_append (toList_of_rel alike.inner)
    (List.rel_filterMap (fun _ _ same => same.rel) alike.members)

theorem map_of_rel {f : Nat → Nat} (paired : ∀ p ∈ pairs, f p.1 = p.2) {x y : Option Nat}
    (rel : Option.Rel (fun x y => (x, y) ∈ pairs) x y) : y = x.map f := by
  cases rel with
  | some member => exact congrArg some (paired _ member).symm
  | none => rfl

theorem Alike.forgetOffsets_eq {a b : DataType (Option Nat)} {f : Nat → Nat} (alike : Alike pairs a b)
    (paired : ∀ p ∈ pairs, f p.1 = p.2) : forgetOffsets b = forgetOffsets (a.map (Option.map f)) := by
  have members : b.members.map (fun m => { m with offset := 0 }) =
      (a.members.map (Member.map (Option.map f))).map fun m => { m with offset := 0 } := by
    have each := alike.members
    generalize a.members = ms at each
    generalize b.members = ns at each
    induction each with
    | nil => rfl
    | cons same _ ih =>
      rw [List.map_cons, List.map_cons, List.map_cons, ih, Member.map, same.1,
        map_of_rel paired same.rel]
  obtain ⟨kind, name, bytes, inner, -, enumerators, dimensions⟩ := alike
  simp only [forgetOffsets, DataType.map, DataType.mk.injEq]
  exact ⟨kind.symm, name.symm, bytes.symm, map_of_rel paired inner, members, enumerators.symm,
    dimensions.symm⟩

theorem Alike.complete {a b : DataType (Option Nat)} (alike : Alike pairs a b) :
    ∀ m ∈ a.members, m.typeRef ≠ none := by
  intro m member
  obtain ⟨i, inside, rfl⟩ := List.mem_iff_getElem.mp member
  obtain ⟨lengths, each⟩ := List.forall₂_iff_get.mp alike.members
  obtain ⟨-, p, -, isType, -⟩ := each i inside (lengths ▸ inside)
  rw [List.get_eq_getElem] at isType
  rw [isType]
  exact Option.some_ne_none _

theorem rel_mono {more : List (Nat × Nat)} {x y : Option Nat}
    (rel : Option.Rel (fun x y => (x, y) ∈ pairs) x y)
    (subset : pairs ⊆ more) : Option.Rel (fun x y => (x, y) ∈ more) x y := by
  cases rel with
  | some member => exact .some (subset member)
  | none => exact .none

theorem Alike.mono {more : List (Nat × Nat)} {a b : DataType (Option Nat)} (alike : Alike pairs a b)
    (subset : pairs ⊆ more) :
    Alike more a b :=
  { alike with
    inner := rel_mono alike.inner subset
    members := alike.members.imp fun _ _ ⟨name, p, member, types⟩ => ⟨name, p, subset member, types⟩ }

/-- Pairs that are in step with one another give an isomorphism. -/
theorem isomorphism_of_pairs {t u : Nat} (first : (pairs.map Prod.fst).Nodup)
    (second : (pairs.map Prod.snd).Nodup)
    (root : (t, u) ∈ pairs) (alike : ∀ p ∈ pairs, AlikeIn types pairs p) :
    Complete types t ∧ ∃ f, Isomorphism forgetOffsets types f t u := by
  have closed (p : Nat × Nat) (member : p ∈ pairs) :
      List.Forall₂ (fun a b => (a, b) ∈ pairs) (next types p.1) (next types p.2) := by
    obtain ⟨a, b, isA, isB, same⟩ := alike p member
    rw [next, next, isA, isB]
    exact same.references
  obtain ⟨inPairs, follows⟩ := partner_follows first root closed
  have isRoot : partner pairs u t = u := partner_eq first root
  have bijective := follows.bijOn (partner_injOn second inPairs)
  rw [isRoot] at bijective
  refine ⟨fun x entry reach isEntry => ?_, partner pairs u, isRoot, bijective, fun x reach => ?_⟩
  · obtain ⟨a, b, isA, -, same⟩ := alike _ (inPairs x reach)
    cases isEntry.symm.trans isA
    exact same.complete
  · obtain ⟨a, b, isA, isB, same⟩ := alike _ (inPairs x reach)
    rw [isA, isB]
    exact congrArg some (same.forgetOffsets_eq fun p member => partner_eq first member)

end

end Adbi.SameTypes
