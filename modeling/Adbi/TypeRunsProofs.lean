import Adbi.TypeReadingProofs
import Mathlib.Data.List.Perm.Subperm

/-! Whole runs of the serialization: what they keep, that they return, and that they are the
same for types which are the same but for offsets. -/
namespace Adbi.TypeRunsProofs
open Adbi.Lib Adbi.TypeCompression Adbi.SameTypes Adbi.TypeReadingProofs

/-! ## Whole runs -/

section
variable {types : DataTypes} {hash : Nat → List Nat → Option (List Item × List Nat)} {t x : Nat}
  {b c : List Nat}
  {items : List Item}

/-- `hash` keeps `P` of what has been visited, and yields only what `Q` holds of, for types that `t`
reaches. -/
def Keeps (types : DataTypes) (t : Nat) (P : List Nat → Prop) (Q : Item → Prop)
    (hash : Nat → List Nat → Option (List Item × List Nat)) : Prop :=
  ∀ x b items c, Reaches (next types) t x → P b → hash x b = some (items, c) →
  P c ∧ ∀ item ∈ items, Q item

theorem hashInner_keeps {P : List Nat → Prop} {Q : Item → Prop} (keeps : Keeps types t P Q hash)
    (arrow : Q (.str "->"))
    {i : Option Nat} (reach : ∀ x, i = some x → Reaches (next types) t x) (holds : P b)
    (ran : hashInner hash i b = some (items, c)) :
    P c ∧ ∀ item ∈ items, Q item := by
  cases i with
  | none =>
    cases ran
    exact ⟨holds, by simp⟩
  | some x =>
    obtain ⟨⟨found, c⟩, isFound, isItems⟩ := Option.bind_eq_some_iff.mp ran
    cases isItems
    obtain ⟨holds, all⟩ := keeps x b found c (reach x rfl) holds isFound
    refine ⟨holds, fun item member => ?_⟩
    rcases List.mem_cons.mp member with rfl | member
    · exact arrow
    · exact all item member

theorem hashMembers_keeps {P : List Nat → Prop} {Q : Item → Prop} (keeps : Keeps types t P Q hash)
    (tilde : Q (.str "~"))
    {ms : List (Member (Option Nat))}
    (reach : ∀ m ∈ ms, ∀ i, m.typeRef = some i → Reaches (next types) t i)
    (names : ∀ m ∈ ms, Q (.ofName m.name)) (holds : P b)
    (ran : hashMembers hash ms b = some (items, c)) :
    P c ∧ ∀ item ∈ items, Q item := by
  induction ms generalizing b items with
  | nil =>
    cases ran
    exact ⟨holds, by simp⟩
  | cons m ms ih =>
    obtain ⟨i, found, b', later, isType, isFound, isLater, rfl⟩ := hashMembers_cons ran
    obtain ⟨holds, first⟩ := keeps i b found b' (reach m List.mem_cons_self i isType) holds isFound
    obtain ⟨holds, others⟩ := ih (fun m member => reach m (List.mem_cons_of_mem _ member))
      (fun m member => names m (List.mem_cons_of_mem _ member)) holds isLater
    refine ⟨holds, fun item member => ?_⟩
    rcases List.mem_cons.mp member with rfl | member
    · exact names m List.mem_cons_self
    · rcases List.mem_append.mp member with member | member
      · rcases List.mem_cons.mp member with rfl | member
        · exact tilde
        · exact first item member
      · exact others item member

theorem mem_inBraces {item : Item} (member : item ∈ inBraces items) : item = .str "\x7b" ∨
    item = .str "\x7d" ∨ item ∈ items := by
  cases items with
  | nil => cases member
  | cons first rest =>
    simp only [inBraces, List.cons_append, List.mem_cons, List.mem_append, List.not_mem_nil,
      or_false] at member ⊢
    tauto

/-- What holds of runs: `P` is kept by every visit, and `Q` holds of all that is yielded. -/
theorem hashList_keeps {P : List Nat → Prop} {Q : Item → Prop}
    (visit : ∀ x b entry, Reaches (next types) t x → x ∉ b → types.datatype x = some entry → P b →
      P (b ++ [x]))
    (marks : ∀ s ∈ ["->", "\x7b", "\x7d", "~"], Q (.str s)) (refs : ∀ n : Nat, Q (.str ("%%" ++ n.repr)))
    (names : ∀ x entry, Reaches (next types) t x → types.datatype x = some entry →
      ∀ m ∈ entry.members, Q (.ofName m.name))
    (own : ∀ x entry, Reaches (next types) t x → types.datatype x = some entry →
      ∀ item ∈ hashHeader entry ++ hashDimensions entry.dimensions ++
        hashEnumerators entry.enumerators, Q item)
    (depth : Nat) : Keeps types t P Q (hashList types depth) := by
  induction depth with
  | zero =>
    intro x b items c _ _ ran
    cases ran
  | succ depth ih =>
    intro x b items c reach holds ran
    by_cases visited : x ∈ b
    · rw [hashList, if_pos visited] at ran
      cases ran
      exact ⟨holds, fun item member => by cases List.mem_singleton.mp member; exact refs _⟩
    · obtain ⟨entry, inner, b', members, isEntry, ranInner, ranMembers, rfl⟩ := hashList_new visited ran
      have holds := visit x b entry reach visited isEntry holds
      obtain ⟨holds, inInner⟩ := hashInner_keeps ih (marks "->" (by simp))
        (fun i isInner => reach.trans (reaches_inner isEntry isInner)) holds ranInner
      obtain ⟨holds, inMembers⟩ := hashMembers_keeps ih (marks "~" (by simp))
        (fun m member i isType => reach.trans (reaches_member isEntry member isType))
          (names x entry reach isEntry) holds
        ranMembers
      have mine := own x entry reach isEntry
      simp only [List.mem_append] at mine ⊢
      refine ⟨holds, fun item member => ?_⟩
      rcases member with (((isHeader | isInner) | isDimensions) | isMember) | isEnumerator
      · exact mine item (.inl (.inl isHeader))
      · exact inInner item isInner
      · exact mine item (.inl (.inr isDimensions))
      · rcases mem_inBraces isMember with rfl | rfl | member
        · exact marks "\x7b" (by simp)
        · exact marks "\x7d" (by simp)
        · exact inMembers item member
      · rcases mem_inBraces isEnumerator with rfl | rfl | member
        · exact marks "\x7b" (by simp)
        · exact marks "\x7d" (by simp)
        · exact mine item (.inr member)

/-- What has been visited on the way from `t`. -/
structure Visited (types : DataTypes) (t : Nat) (b : List Nat) : Prop where
  nodup : b.Nodup
  reached : ∀ x ∈ b, Reaches (next types) t x
  known : ∀ x ∈ b, (types.datatype x).isSome

theorem Visited.nil : Visited types t [] := ⟨.nil, by simp, by simp⟩

theorem Visited.visit {entry : DataType (Option Nat)} (visited : Visited types t b)
    (reach : Reaches (next types) t x)
    (new : x ∉ b) (isEntry : types.datatype x = some entry) : Visited types t (b ++ [x]) := by
  refine ⟨List.nodup_append.mpr ⟨visited.nodup, List.nodup_singleton x, fun y member z last => ?_⟩,
    fun y member => ?_,
    fun y member => ?_⟩
  · cases List.mem_singleton.mp last
    exact fun same => new (same ▸ member)
  · rcases List.mem_append.mp member with before | last
    · exact visited.reached y before
    · rwa [List.mem_singleton.mp last]
  · rcases List.mem_append.mp member with before | last
    · exact visited.known y before
    · rw [List.mem_singleton.mp last, isEntry]
      rfl

theorem hashList_visited (depth least : Nat) :
    Keeps types t (fun b => Visited types t b ∧ least ≤ b.length) (fun _ => True)
    (hashList types depth) := by
  refine hashList_keeps ?_ (fun _ _ => trivial) (fun _ => trivial) (fun _ _ _ _ _ _ => trivial)
    (fun _ _ _ _ _ _ => trivial) depth
  rintro x b entry reach new isEntry ⟨visited, long⟩
  exact ⟨visited.visit reach new isEntry, by rw [List.length_append]; omega⟩

/-- No item has the separator in it. -/
theorem hashList_plain (regular : Unambiguous types t) (depth : Nat) :
    Keeps types t (fun _ => True) (fun item => ':' ∉ item.text.toList) (hashList types depth) := by
  have plainName {name : Option String} (distinct : Distinct name) :
      ':' ∉ (Item.ofName name).text.toList := by
    cases name with
    | none => decide
    | some s => exact (distinct s rfl).1
  have plainNumber (n : Option Int) : ':' ∉ (Item.ofNumber n).text.toList := by
    intro member
    have char := mem_number member
    revert char
    decide
  refine hashList_keeps (fun _ _ _ _ _ _ _ => trivial) ?_ (fun n member => ?_)
    (fun x entry reach isEntry m member => ?_)
    (fun x entry reach isEntry item member => ?_) depth
  · decide
  · rw [Item.text, String.toList_append, List.mem_append, Nat.toList_repr] at member
    rcases member with mark | digit
    · revert mark
      decide
    · have isDigit := Nat.isDigit_of_mem_toDigits (by omega) (by omega) digit
      revert isDigit
      decide
  · exact plainName ((regular x entry reach isEntry).members m member).1
  · rw [List.mem_append, List.mem_append] at member
    rcases member with (isHeader | isDimensions) | isEnumerator
    · simp only [hashHeader, List.mem_cons, List.not_mem_nil, or_false] at isHeader
      rcases isHeader with rfl | rfl | rfl
      · exact plainNumber (some _)
      · exact plainName (regular x entry reach isEntry).name
      · exact plainNumber _
    · intro isIn
      have char := mem_dimensions isDimensions isIn
      revert char
      decide
    · obtain ⟨e, isOne, member⟩ := List.mem_flatMap.mp isEnumerator
      simp only [List.mem_cons, List.not_mem_nil, or_false] at member
      rcases member with rfl | rfl | rfl
      · exact plainName ((regular x entry reach isEntry).enumerators e isOne).1
      · decide
      · exact plainNumber _

/-! ## Runs that must succeed -/

theorem isSome_of_resolved {reference : Option Nat} {i : Nat}
    (resolved : types.resolve reference = some i) :
    (types.datatype i).isSome := by
  obtain ⟨-, known⟩ := Option.filter_eq_some_iff.mp resolved
  rw [DataTypes.datatype, Option.isSome_map]
  exact known

theorem isSome_inner {entry : DataType (Option Nat)} {i : Nat} (isEntry : types.datatype x = some entry)
    (isInner : entry.inner = some i) :
    (types.datatype i).isSome := by
  obtain ⟨raw, -, rfl⟩ := Option.map_eq_some_iff.mp isEntry
  exact isSome_of_resolved isInner

theorem isSome_member {entry : DataType (Option Nat)} {m : Member (Option Nat)} {i : Nat}
    (isEntry : types.datatype x = some entry) (member : m ∈ entry.members)
    (isType : m.typeRef = some i) :
    (types.datatype i).isSome := by
  obtain ⟨raw, -, rfl⟩ := Option.map_eq_some_iff.mp isEntry
  obtain ⟨n, -, rfl⟩ := List.mem_map.mp member
  exact isSome_of_resolved isType

theorem Visited.length_le (visited : Visited types t b) : b.length ≤ types.typemap.length := by
  have subset : b ⊆ types.typemap.map Prod.fst := by
    intro x member
    have known := visited.known x member
    rw [DataTypes.datatype, Option.isSome_map, List.lookup_isSome_iff] at known
    obtain ⟨p, isIn, same⟩ := known
    exact List.mem_map.mpr ⟨p, isIn, (beq_iff_eq.mp same).symm⟩
  have lengths := (visited.nodup.subperm subset).length_le
  rwa [List.length_map] at lengths

/-- With as much room as there are types left, `hash` returns. -/
def Returns (types : DataTypes) (t depth : Nat)
    (hash : Nat → List Nat → Option (List Item × List Nat)) : Prop :=
  ∀ x b, Reaches (next types) t x → (types.datatype x).isSome → Visited types t b →
  types.typemap.length < depth + b.length →
    ∃ items c, hash x b = some (items, c)

theorem hashMembers_returns {depth : Nat} (returns : Returns types t depth (hashList types depth))
    {ms : List (Member (Option Nat))}
    (complete : ∀ m ∈ ms, ∃ i, m.typeRef = some i ∧ Reaches (next types) t i ∧ (types.datatype i).isSome)
    (visited : Visited types t b) (room : types.typemap.length < depth + b.length) :
    ∃ items c, hashMembers (hashList types depth) ms b = some (items, c) := by
  induction ms generalizing b with
  | nil => exact ⟨[], b, rfl⟩
  | cons m ms ih =>
    obtain ⟨i, isType, reach, known⟩ := complete m List.mem_cons_self
    obtain ⟨found, c, isFound⟩ := returns i b reach known visited room
    obtain ⟨⟨stillVisited, longer⟩, -⟩ :=
      hashList_visited depth b.length i b found c reach ⟨visited, le_rfl⟩ isFound
    obtain ⟨later, d, isLater⟩ :=
      ih (fun m member => complete m (List.mem_cons_of_mem _ member)) stillVisited (by omega)
    exact ⟨_, d, hashMembers_of_parts isType isFound isLater⟩

theorem hashList_returns (complete : Complete types t) (depth : Nat) :
    Returns types t depth (hashList types depth) := by
  induction depth with
  | zero =>
    intro x b reach known visited room
    have few := visited.length_le
    omega
  | succ depth ih =>
    intro x b reach known visited room
    by_cases new : x ∈ b
    · exact ⟨_, b, by rw [hashList, if_pos new]⟩
    · obtain ⟨entry, isEntry⟩ := Option.isSome_iff_exists.mp known
      have starts := visited.visit reach new isEntry
      have length : (b ++ [x]).length = b.length + 1 := by rw [List.length_append]; rfl
      have inner : ∃ items b', hashInner (hashList types depth) entry.inner (b ++ [x]) =
          some (items, b') ∧
          Visited types t b' ∧ b.length + 1 ≤ b'.length := by
        cases isInner : entry.inner with
        | none => exact ⟨[], b ++ [x], rfl, starts, by omega⟩
        | some i =>
          have reachInner := reach.trans (reaches_inner isEntry isInner)
          obtain ⟨found, b', isFound⟩ :=
            ih i (b ++ [x]) reachInner (isSome_inner isEntry isInner) starts (by omega)
          obtain ⟨visited, -⟩ :=
            hashList_visited depth (b.length + 1) i (b ++ [x]) found b' reachInner ⟨starts,
              by omega⟩ isFound
          exact ⟨.str "->" :: found, b', by rw [hashInner, isFound]; rfl, visited⟩
      obtain ⟨items, b', isItems, visited, longer⟩ := inner
      obtain ⟨members, c, isMembers⟩ := hashMembers_returns ih (fun m member => by
        obtain ⟨i, isType⟩ := Option.ne_none_iff_exists'.mp (complete x entry reach isEntry m member)
        exact ⟨i, isType, reach.trans (reaches_member isEntry member isType),
          isSome_member isEntry member isType⟩)
        visited (by omega)
      exact ⟨_, c, hashList_of_parts new isEntry isItems isMembers⟩

end

/-! ## Runs of types that are the same but for offsets -/

section
variable {types : DataTypes} {f : Nat → Nat} {t u x : Nat} {b c : List Nat} {items : List Item}

/-- The members are mapped, but for their offsets. -/
def Mirrored (f : Nat → Nat) (m n : Member (Option Nat)) : Prop :=
  n.name = m.name ∧ n.typeRef = m.typeRef.map f

/-- A run of `hash` on a type is one on the type that it is mapped to. -/
def Mirrors (types : DataTypes) (f : Nat → Nat) (t : Nat)
    (hash : Nat → List Nat → Option (List Item × List Nat)) : Prop :=
  ∀ x b items c, Reaches (next types) t x → (∀ v ∈ b, Reaches (next types) t v) →
  hash x b = some (items, c) →
    hash (f x) (b.map f) = some (items, c.map f)

theorem hashList_reached (depth : Nat) :
    Keeps types t (fun b => ∀ v ∈ b, Reaches (next types) t v) (fun _ => True)
    (hashList types depth) := by
  refine hashList_keeps ?_ (fun _ _ => trivial) (fun _ => trivial) (fun _ _ _ _ _ _ => trivial)
    (fun _ _ _ _ _ _ => trivial) depth
  intro x b entry reach new isEntry all v member
  rcases List.mem_append.mp member with before | last
  · exact all v before
  · rwa [List.mem_singleton.mp last]

theorem idxOf_map {s : Set Nat} (injective : Set.InjOn f s) (isIn : x ∈ s) (all : ∀ v ∈ b, v ∈ s) :
    (b.map f).idxOf (f x) = b.idxOf x := by
  induction b with
  | nil => rfl
  | cons v b ih =>
    rw [List.map_cons, List.idxOf_cons, List.idxOf_cons,
      ih fun v member => all v (List.mem_cons_of_mem _ member)]
    by_cases same : v = x
    · rw [same, beq_self_eq_true, beq_self_eq_true]
    · have images : f v ≠ f x := fun images => same (injective (all v List.mem_cons_self) isIn images)
      rw [beq_eq_false_iff_ne.mpr same, beq_eq_false_iff_ne.mpr images]

theorem mem_map_iff {s : Set Nat} (injective : Set.InjOn f s) (isIn : x ∈ s) (all : ∀ v ∈ b, v ∈ s) :
    f x ∈ b.map f ↔ x ∈ b := by
  constructor
  · intro member
    obtain ⟨v, isV, same⟩ := List.mem_map.mp member
    rwa [← injective (all v isV) isIn same]
  · exact List.mem_map_of_mem

theorem hashMembers_image {depth : Nat} (mirrors : Mirrors types f t (hashList types depth))
    {ms ns : List (Member (Option Nat))}
    (mirrored : List.Forall₂ (Mirrored f) ms ns)
    (reach : ∀ m ∈ ms, ∀ i, m.typeRef = some i → Reaches (next types) t i)
    (visited : ∀ v ∈ b, Reaches (next types) t v)
    (ran : hashMembers (hashList types depth) ms b = some (items, c)) :
    hashMembers (hashList types depth) ns (b.map f) = some (items, c.map f) := by
  induction mirrored generalizing b items with
  | nil =>
    cases ran
    rfl
  | @cons m n ms ns same _ ih =>
    obtain ⟨i, found, b', later, isType, isFound, isLater, rfl⟩ := hashMembers_cons ran
    have reachType := reach m List.mem_cons_self i isType
    have first := mirrors i b found b' reachType visited isFound
    have stillReached := (hashList_reached depth i b found b' reachType visited isFound).1
    have others := ih (fun m member => reach m (List.mem_cons_of_mem _ member)) stillReached isLater
    have isImage : n.typeRef = some (f i) := by rw [same.2, isType]; rfl
    rw [← same.1]
    exact hashMembers_of_parts isImage first others

theorem mirrored_members {a e : DataType (Option Nat)}
    (same : forgetOffsets e = forgetOffsets (a.map (Option.map f))) :
    List.Forall₂ (Mirrored f) a.members e.members := by
  have members := congrArg DataType.members same
  have mapped : a.members.map (fun m => (m.name, m.typeRef.map f)) = e.members.map fun n =>
      (n.name, n.typeRef) := by
    have pairs := congrArg (List.map fun n => (n.name, n.typeRef)) members
    simp only [forgetOffsets, DataType.map, List.map_map] at pairs
    exact pairs.symm
  rw [← List.forall₂_eq_eq_eq, List.forall₂_map_left_iff, List.forall₂_map_right_iff] at mapped
  exact mapped.imp fun m n same => ⟨(congrArg Prod.fst same).symm, (congrArg Prod.snd same).symm⟩

theorem hashList_image (iso : Isomorphism forgetOffsets types f t u) (depth : Nat) :
    Mirrors types f t (hashList types depth) := by
  induction depth with
  | zero =>
    intro x b items c _ _ ran
    cases ran
  | succ depth ih =>
    intro x b items c reach all ran
    have injective := iso.bijective.injOn
    by_cases visited : x ∈ b
    · rw [hashList, if_pos visited] at ran
      cases ran
      rw [hashList, if_pos ((mem_map_iff injective reach all).mpr visited),
        idxOf_map injective reach all]
    · obtain ⟨a, inner, b', members, isA, ranInner, ranMembers, rfl⟩ := hashList_new visited ran
      have preserved := iso.preserved x reach
      rw [isA] at preserved
      obtain ⟨e, isE, same⟩ := Option.map_eq_some_iff.mp preserved
      have starts : ∀ v ∈ b ++ [x], Reaches (next types) t v := by
        intro v member
        rcases List.mem_append.mp member with before | last
        · exact all v before
        · rwa [List.mem_singleton.mp last]
      have isInner : e.inner = a.inner.map f := congrArg DataType.inner same
      have imageInner : hashInner (hashList types depth) e.inner (b.map f ++ [f x]) =
          some (inner, b'.map f) ∧
          ∀ v ∈ b', Reaches (next types) t v := by
        have list : b.map f ++ [f x] = (b ++ [x]).map f := by rw [List.map_append]; rfl
        rw [isInner, list]
        cases inside : a.inner with
        | none =>
          rw [inside] at ranInner
          cases ranInner
          exact ⟨rfl, starts⟩
        | some i =>
          rw [inside] at ranInner
          obtain ⟨⟨found, b'⟩, isFound, isItems⟩ := Option.bind_eq_some_iff.mp ranInner
          cases isItems
          have reachInner := reach.trans (reaches_inner isA inside)
          have image := ih i (b ++ [x]) found b' reachInner starts isFound
          exact ⟨Option.bind_eq_some_iff.mpr ⟨(found, b'.map f), image, rfl⟩,
            (hashList_reached depth i _ found b' reachInner starts isFound).1⟩
      have imageMembers := hashMembers_image ih (mirrored_members same)
        (fun m member i isType => reach.trans (reaches_member isA member isType)) imageInner.2 ranMembers
      have new : f x ∉ b.map f := fun member => visited ((mem_map_iff injective reach all).mp member)
      have kind : e.kind = a.kind := (congrArg DataType.kind same :)
      have name : e.name = a.name := (congrArg DataType.name same :)
      have bytes : e.bytes = a.bytes := (congrArg DataType.bytes same :)
      have dimensions : e.dimensions = a.dimensions := (congrArg DataType.dimensions same :)
      have enumerators : e.enumerators = a.enumerators := (congrArg DataType.enumerators same :)
      rw [hashList_of_parts new isE imageInner.1 imageMembers, hashHeader, hashHeader, kind, name,
        bytes, dimensions,
        enumerators]

end

end Adbi.TypeRunsProofs
