import Adbi.TypeRunsProofs

/-! Whether types with one string are the same. The string says nothing of offsets, and its
parts are not marked off from each other. -/
namespace Adbi.TypeCompressionProofs
open Adbi.Lib Adbi.TypeCompression Adbi.SameTypes Adbi.TypeReadingProofs Adbi.TypeRunsProofs

/-! ## Soundness -/

section
variable {types : DataTypes} {f : Nat → Nat} {t u : Nat}

theorem members_eq {l k : List (Member (Option Nat))}
    (same : l.map (fun m => { m with offset := 0 }) = k.map fun m => { m with offset := 0 })
    (offsets : l.map Member.offset = k.map Member.offset) : l = k := by
  induction l generalizing k with
  | nil => exact (List.map_eq_nil_iff.mp same.symm).symm
  | cons m l ih =>
    cases k with
    | nil => cases same
    | cons n k =>
      obtain ⟨first, others⟩ := List.cons.inj same
      obtain ⟨offset, rest⟩ := List.cons.inj offsets
      obtain ⟨name, typeRef, -⟩ := Member.mk.inj first
      have isFirst : m = n := Member.ext name typeRef offset
      rw [isFirst, ih others rest]

theorem eq_of_forgetOffsets {a b : DataType (Option Nat)} (same : forgetOffsets a = forgetOffsets b)
    (offsets : a.members.map Member.offset = b.members.map Member.offset) : a = b := by
  have members := members_eq (congrArg DataType.members same :) offsets
  obtain ⟨kind, name, bytes, inner, -, enumerators, dimensions⟩ := DataType.mk.inj same
  exact DataType.ext kind name bytes inner members enumerators dimensions

/-- Types that are the same but for offsets have one string. -/
theorem hashString_image (iso : Isomorphism forgetOffsets types f t u) {text : String}
    (string : hashString types t = some text) :
    hashString types u = some text := by
  obtain ⟨⟨items, c⟩, ran, isText⟩ := Option.map_eq_some_iff.mp string
  have image := hashList_image iso _ t [] items c .refl (by simp) ran
  rw [iso.root] at image
  exact Option.map_eq_some_iff.mpr ⟨(items, c.map f), image, isText⟩

theorem hashString_isSome (complete : Complete types t) (known : (types.datatype t).isSome) :
    ∃ text, hashString types t = some text := by
  obtain ⟨items, c, ran⟩ := hashList_returns complete (types.typemap.length + 1) t [] .refl known
    .nil (by simp)
  exact ⟨_, Option.map_eq_some_iff.mpr ⟨(items, c), ran, rfl⟩⟩

/-- Unambiguous types with one string are the same but for offsets. -/
theorem isomorphism_of_hashString (regular : Unambiguous types t)
    (alsoRegular : Unambiguous types u) {text : String}
    (string : hashString types t = some text) (also : hashString types u = some text) :
    Complete types t ∧ ∃ f, Isomorphism forgetOffsets types f t u := by
  obtain ⟨⟨items, c⟩, ran, isText⟩ := Option.map_eq_some_iff.mp string
  obtain ⟨⟨others, d⟩, alsoRan, isAlsoText⟩ := Option.map_eq_some_iff.mp also
  have plain := (hashList_plain regular _ t [] items c .refl trivial ran).2
  have alsoPlain := (hashList_plain alsoRegular _ u [] others d .refl trivial alsoRan).2
  have nonempty {x : Nat} {items : List Item} {c : List Nat}
      (ran : hashList types (types.typemap.length + 1) x [] = some (items, c)) :
      texts items ≠ [] := by
    obtain ⟨entry, inner, b, members, -, -, -, rfl⟩ := hashList_new List.not_mem_nil ran
    simp [hashHeader]
  have same : texts items = texts others := by
    refine intercalate_inj (c :=
      ':') (fun s member => ?_) (fun s member => ?_) (nonempty ran) (nonempty alsoRan)
      (isText.trans isAlsoText.symm)
    · obtain ⟨item, isIn, rfl⟩ := List.mem_map.mp member
      exact plain item isIn
    · obtain ⟨item, isIn, rfl⟩ := List.mem_map.mp member
      exact alsoPlain item isIn
  obtain ⟨-, more, visits, root⟩ :=
    hashList_inj types (types.typemap.length + 1) t u [] items others c d [] [] regular
    alsoRegular ran alsoRan (by rw [same]) ⟨by simp, by simp⟩ ⟨by simp, by simp⟩
  rw [List.nil_append] at root
  have first := (hashList_visited _ 0 t [] items c .refl ⟨.nil, le_rfl⟩ ran).1.1.nodup
  have second := (hashList_visited _ 0 u [] others d .refl ⟨.nil, le_rfl⟩ alsoRan).1.1.nodup
  rw [visits.first] at first
  rw [visits.second] at second
  exact isomorphism_of_pairs first second root visits.alike

/-- Two types with one string are the same only if their offsets are, where the rest is the same;
and unambiguous types are then the same. -/
theorem sound_aligned (types : DataTypes) (t u : Nat) :
    (Sound types t u → Aligned types t u) ∧
    (Unambiguous types t → Unambiguous types u → Aligned types t u → Sound types t u) := by
  constructor
  · intro sound complete f iso x reach
    by_cases known : (types.datatype t).isSome
    · obtain ⟨text, string⟩ := hashString_isSome complete known
      obtain ⟨g, whole⟩ := sound text string (hashString_image iso string)
      have same : f x = g x :=
        (iso.follows references_forgetOffsets).unique (whole.follows fun _ => rfl)
          (iso.root.trans whole.root.symm) reach
      rw [same]
      exact whole.offsets_eq reach
    · rw [Bool.not_eq_true, Option.isSome_eq_false_iff, Option.isNone_iff_eq_none] at known
      have isRoot : t = x := by
        refine (Relation.ReflTransGen.cases_head reach).resolve_right ?_
        rintro ⟨y, step, -⟩
        rw [next, known] at step
        cases step
      have preserved := iso.preserved t .refl
      rw [known, Option.map_none, Option.map_eq_none_iff] at preserved
      rw [← isRoot, offsets, offsets, preserved, known]
  · intro regular alsoRegular aligned text string also
    obtain ⟨complete, f, iso⟩ := isomorphism_of_hashString regular alsoRegular string also
    refine ⟨f, iso.root, iso.bijective, fun x reach => ?_⟩
    have preserved := iso.preserved x reach
    have same := aligned complete f iso x reach
    rw [offsets, offsets] at same
    cases isA : types.datatype x with
    | none =>
      rw [isA, Option.map_none, Option.map_eq_none_iff] at preserved
      rw [preserved]
      rfl
    | some a =>
      rw [isA] at preserved same
      obtain ⟨e, isE, isSame⟩ := Option.map_eq_some_iff.mp preserved
      rw [isE] at same ⊢
      exact congrArg some (eq_of_forgetOffsets isSame (same.trans offsets_map.symm))

/-! ## Types that are merged -/

private def int : DataType (Option Nat) := ⟨.int, some "int", some 4, none, [], [], [], fun _ => rfl⟩

/-- `struct s { int a; }` with its member at some offset. -/
private def single (offset : Nat) : DataType (Option Nat) :=
  ⟨.struct, some "s", some 8, none, [⟨some "a", some 0, offset⟩], [], [], fun _ => rfl⟩

private def singles : DataTypes := ⟨[(0, int), (1, single 0), (2, single 32)]⟩

/-- Two structures that differ in the offset of their member are taken for one. -/
theorem offsets_merged :
    (∃ text, hashString singles 1 = some text ∧ hashString singles 2 = some text) ∧
    ¬SameType singles 1 2 := by
  refine ⟨⟨_, rfl, rfl⟩, ?_⟩
  rintro ⟨f, iso⟩
  have same := iso.offsets_eq .refl
  rw [iso.root] at same
  revert same
  decide

private def enum (enumerators : List Enumerator) : DataType (Option Nat) :=
  ⟨.enum, some "e", some 4, none, [], enumerators, [], fun _ => rfl⟩

private def enums : DataTypes :=
  ⟨[(0, enum [⟨some "A", some 1⟩, ⟨some "B", some 2⟩]), (1, enum [⟨some "A:~:1:B", some 2⟩])]⟩

/-- Names with separators in them are not told from several names. -/
theorem names_merged : (∃ text, hashString enums 0 = some text ∧ hashString enums 1 = some text) ∧
    ¬SameType enums 0 1 := by
  refine ⟨⟨_, rfl, ?_⟩, ?_⟩
  · rfl
  · rintro ⟨f, iso⟩
    have same := iso.preserved 0 .refl
    rw [iso.root] at same
    have enumerators : [⟨some "A:~:1:B", some 2⟩] =
        [(⟨some "A", some 1⟩ : Enumerator), ⟨some "B", some 2⟩] :=
      Option.some.inj (congrArg (Option.map DataType.enumerators) same)
    revert enumerators
    decide

end

end Adbi.TypeCompressionProofs
