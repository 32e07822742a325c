import Adbi.SameTypes
import Std.Data.String.ToInt

/-! What can be read back from the items of a type, and from their texts. Where it is clear
to which type an optional part belongs, the items determine all but the offsets. -/
namespace Adbi.TypeReadingProofs
open Adbi.Lib Adbi.TypeCompression Adbi.SameTypes

/-! ## Texts -/

/-- A name that is neither taken for a missing one nor cut at a separator. -/
def Distinct (name : Option String) : Prop := ∀ s, name = some s → ':' ∉ s.toList ∧ s ≠ "None"

theorem mem_repr {n : Int} {c : Char} (member : c ∈ n.repr.toList) : c.isDigit = true ∨ c = '-' := by
  have digits {k : Nat} (member : c ∈ k.repr.toList) : c.isDigit = true := by
    rw [Nat.toList_repr] at member
    exact Nat.isDigit_of_mem_toDigits (by omega) (by omega) member
  rw [Int.repr_eq_if] at member
  split at member
  · exact .inl (digits member)
  · rw [String.toList_append] at member
    rcases List.mem_append.mp member with sign | digit
    · exact .inr (by simpa using sign)
    · exact .inl (digits digit)

theorem mem_number {n : Option Int} {c : Char} (member : c ∈ (Item.ofNumber n).text.toList) :
    c.isDigit = true ∨ c = '-' ∨ c ∈ "None".toList := by
  cases n with
  | none => exact .inr (.inr member)
  | some n => exact (mem_repr member).imp id .inl

theorem repr_ne {n : Int} {s : String} {c : Char} (member : c ∈ s.toList)
    (other : c.isDigit = false) (notMinus : c ≠ '-') :
    n.repr ≠ s := by
  rintro rfl
  rcases mem_repr member with digit | minus
  · rw [digit] at other
    cases other
  · exact notMinus minus

theorem text_ofNumber_inj {m n : Option Int}
    (same : (Item.ofNumber m).text = (Item.ofNumber n).text) : m = n := by
  have missing (k : Int) : k.repr ≠ "None" := repr_ne (c := 'N') (by decide) (by decide) (by decide)
  cases m with
  | none =>
    cases n with
    | none => rfl
    | some n => exact absurd same.symm (missing n)
  | some m =>
    cases n with
    | none => exact absurd same (missing m)
    | some n => exact congrArg some (Int.repr_injective same)

theorem text_ofName_inj {a b : Option String} (first : Distinct a) (second : Distinct b)
    (same : (Item.ofName a).text = (Item.ofName b).text) : a = b := by
  cases a with
  | none =>
    cases b with
    | none => rfl
    | some b => exact absurd same.symm (second b rfl).2
  | some a =>
    cases b with
    | none => exact absurd same (first a rfl).2
    | some b => exact congrArg some same

/-- A list of texts without the separator is read back from their joining. -/
theorem intercalate_inj {c : Char} {l k : List String} (first : ∀ s ∈ l, c ∉ s.toList)
    (second : ∀ s ∈ k, c ∉ s.toList)
    (nonempty : l ≠ []) (also : k ≠ [])
    (same : (String.singleton c).intercalate l = (String.singleton c).intercalate k) :
    l = k := by
  have lists := congrArg String.toList same
  rw [String.toList_intercalate, String.toList_intercalate, String.toList_singleton] at lists
  have split := congrArg (List.splitOn c) lists
  rw [List.splitOn_intercalate, List.splitOn_intercalate] at split
  · exact List.map_injective_iff.mpr (fun _ _ => String.toList_inj.mp) split
  · simpa using second
  · simpa using also
  · simpa using first
  · simpa using nonempty

theorem value_inj {a b : TypeKind} (same : a.value.repr = b.value.repr) : a = b := by
  have values := Int.repr_injective same
  revert values
  cases a <;> cases b <;> decide

/-! ## Reading items back -/

def isCompound (kind : TypeKind) : Bool := kind = .struct || kind = .cls || kind = .union

/-- The kinds of which a type may end with braces. -/
def isBraced (kind : TypeKind) : Bool := isCompound kind || kind = .enum

/-- The types whose items may end with braces, their own or those of a type within. -/
inductive Open (types : DataTypes) : Nat → Prop
  | here {t : Nat} {entry : DataType (Option Nat)} : types.datatype t = some entry →
  isBraced entry.kind → Open types t
  | inner {t i : Nat} {entry : DataType (Option Nat)} :
    types.datatype t = some entry → entry.inner = some i → Open types i → Open types t

/-- An entry whose items can be told apart: no name looks like another part, every array has
dimensions, members and enumerators are where they belong, and no two types can claim the same
braces. -/
structure Regular (types : DataTypes) (entry : DataType (Option Nat)) : Prop where
  name : Distinct entry.name
  members : ∀ m ∈ entry.members, Distinct m.name ∧ m.name ∉ [some "->", some "\x7b", some "\x7d"]
  enumerators : ∀ e ∈ entry.enumerators, Distinct e.name ∧ e.name ≠ some "\x7d"
  dimensions : entry.kind = .array → entry.dimensions ≠ []
  compound : entry.members ≠ [] → isCompound entry.kind = true
  enum : entry.enumerators ≠ [] → entry.kind = .enum
  single : isBraced entry.kind = true → ∀ i, entry.inner = some i → ¬Open types i

/-- Whatever `t` reaches is regular. -/
def Unambiguous (types : DataTypes) (t : Nat) : Prop :=
  ∀ a entry, Reaches (next types) t a → types.datatype a = some entry → Regular types entry

def texts (items : List Item) : List String := items.map Item.text

/-- What may stand behind the items of `t`. -/
def Separated (types : DataTypes) (t : Nat) (rest : List String) : Prop :=
  rest.head? ≠ some "->" ∧ (Open types t → rest.head? ≠ some "\x7b")

section
variable {types : DataTypes} {hash : Nat → List Nat → Option (List Item × List Nat)}
  {pairs : List (Nat × Nat)}
  {items others : List Item} {rest later : List String}

@[simp] theorem texts_append : texts (items ++ others) = texts items ++ texts others := List.map_append

@[simp] theorem texts_cons {item : Item} : texts (item :: items) = item.text :: texts items := rfl

@[simp] theorem texts_nil : texts [] = [] := rfl

/-- The visits of two runs in step: what is new on both sides is paired, and alike. -/
structure Visits (types : DataTypes) (pairs more : List (Nat × Nat)) (c d : List Nat) : Prop where
  first : c = (pairs ++ more).map Prod.fst
  second : d = (pairs ++ more).map Prod.snd
  alike : ∀ p ∈ more, AlikeIn types (pairs ++ more) p

/-- Items determine what has been visited, and where they end. -/
def ReadsBack (types : DataTypes) (hash : Nat → List Nat → Option (List Item × List Nat)) : Prop :=
  ∀ x y pairs items others c d rest later, Unambiguous types x → Unambiguous types y →
    hash x (pairs.map Prod.fst) = some (items, c) → hash y (pairs.map Prod.snd) = some (others, d) →
    texts items ++ rest = texts others ++ later → Separated types x rest → Separated types y later →
    rest = later ∧ ∃ more, Visits types pairs more c d ∧ (x, y) ∈ pairs ++ more

theorem inBraces_inj (first : rest.head? ≠ some "\x7b") (second : later.head? ≠ some "\x7b")
    (same : texts (inBraces items) ++ rest = texts (inBraces others) ++ later) :
    texts items ++ "\x7d" :: rest = texts others ++ "\x7d" :: later := by
  cases items with
  | nil =>
    cases others with
    | nil => exact congrArg (List.cons "\x7d") same
    | cons item others =>
      rw [inBraces, texts_nil, List.nil_append] at same
      exact absurd (congrArg List.head? same) first
  | cons item items =>
    cases others with
    | nil =>
      rw [inBraces, inBraces, texts_nil, List.nil_append] at same
      exact absurd (congrArg List.head? same).symm second
    | cons other others =>
      simpa [inBraces, Item.text] using same

theorem enumerators_inj {l k : List Enumerator} (first : ∀ e ∈ l, Distinct e.name ∧ e.name ≠ some "\x7d")
    (second : ∀ e ∈ k, Distinct e.name ∧ e.name ≠ some "\x7d")
    (same : texts (hashEnumerators l) ++ "\x7d" :: rest =
      texts (hashEnumerators k) ++ "\x7d" :: later) : l = k ∧ rest = later := by
  have closing {e : Enumerator} (plain : Distinct e.name ∧ e.name ≠ some "\x7d") :
      (Item.ofName e.name).text ≠ "\x7d" := by
    obtain ⟨-, plain⟩ := plain
    cases isName : e.name with
    | none => decide
    | some name => exact fun same => plain (isName.trans (congrArg some same))
  induction l generalizing k with
  | nil =>
    cases k with
    | nil => exact ⟨rfl, List.tail_eq_of_cons_eq same⟩
    | cons e k =>
      exact absurd (List.head_eq_of_cons_eq same).symm (closing (second e List.mem_cons_self))
  | cons e l ih =>
    cases k with
    | nil => exact absurd (List.head_eq_of_cons_eq same) (closing (first e List.mem_cons_self))
    | cons f k =>
      simp only [hashEnumerators, List.flatMap_cons, texts_cons, List.cons_append, List.nil_append,
        List.cons.injEq] at same
      obtain ⟨names, -, values, rest⟩ := same
      obtain ⟨others, ends⟩ := ih (fun e member => first e (List.mem_cons_of_mem _ member))
        (fun e member => second e (List.mem_cons_of_mem _ member)) rest
      have isName := text_ofName_inj (first e List.mem_cons_self).1 (second f List.mem_cons_self).1 names
      have isValue := text_ofNumber_inj values
      obtain ⟨name, value⟩ := e
      cases isName
      cases isValue
      exact ⟨congrArg _ others, ends⟩

theorem Visits.trans {more most : List (Nat × Nat)} {c d c' d' : List Nat}
    (first : Visits types pairs more c d)
    (second : Visits types (pairs ++ more) most c' d') : Visits types pairs (more ++ most) c' d' := by
  refine ⟨by rw [← List.append_assoc]; exact second.first,
    by rw [← List.append_assoc]; exact second.second, fun p member => ?_⟩
  rw [← List.append_assoc]
  rcases List.mem_append.mp member with isFirst | isSecond
  · obtain ⟨a, b, isA, isB, alike⟩ := first.alike p isFirst
    exact ⟨a, b, isA, isB, alike.mono (List.subset_append_left _ _)⟩
  · exact second.alike p isSecond

theorem hashInner_inj (back : ReadsBack types hash) {i j : Option Nat} {c d : List Nat}
    (regular : ∀ x, i = some x → Unambiguous types x ∧ Separated types x rest)
    (alsoRegular : ∀ y, j = some y → Unambiguous types y ∧ Separated types y later)
    (ran : hashInner hash i (pairs.map Prod.fst) = some (items, c))
    (also : hashInner hash j (pairs.map Prod.snd) = some (others, d))
    (first : rest.head? ≠ some "->") (second : later.head? ≠ some "->")
    (same : texts items ++ rest = texts others ++ later) :
    rest = later ∧ ∃ more, Visits types pairs more c d ∧
    Option.Rel (fun x y => (x, y) ∈ pairs ++ more) i j := by
  cases i with
  | none =>
    cases ran
    cases j with
    | none =>
      cases also
      exact ⟨same, [], ⟨by rw [List.append_nil], by rw [List.append_nil], by simp⟩, .none⟩
    | some y =>
      obtain ⟨⟨found, d⟩, -, isOthers⟩ := Option.bind_eq_some_iff.mp also
      cases isOthers
      exact absurd (congrArg List.head? same) first
  | some x =>
    obtain ⟨⟨found, c⟩, isFound, isItems⟩ := Option.bind_eq_some_iff.mp ran
    cases isItems
    cases j with
    | none =>
      cases also
      exact absurd (congrArg List.head? same).symm second
    | some y =>
      obtain ⟨⟨alsoFound, d⟩, isAlsoFound, isOthers⟩ := Option.bind_eq_some_iff.mp also
      cases isOthers
      obtain ⟨isRegular, separated⟩ := regular x rfl
      obtain ⟨isAlsoRegular, alsoSeparated⟩ := alsoRegular y rfl
      obtain ⟨ends, more, visits, member⟩ :=
        back x y pairs found alsoFound c d rest later isRegular isAlsoRegular
        isFound isAlsoFound (List.tail_eq_of_cons_eq same) separated alsoSeparated
      exact ⟨ends, more, visits, .some member⟩

theorem hashMembers_cons {m : Member (Option Nat)} {ms : List (Member (Option Nat))} {b c : List Nat}
    (ran : hashMembers hash (m :: ms) b = some (items, c)) :
    ∃ datatype found b' later, m.typeRef = some datatype ∧ hash datatype b = some (found, b') ∧
      hashMembers hash ms b' = some (later, c) ∧
      items = .ofName m.name :: .str "~" :: found ++ later := by
  obtain ⟨datatype, isType, ran⟩ := Option.bind_eq_some_iff.mp ran
  obtain ⟨⟨found, b'⟩, isFound, ran⟩ := Option.bind_eq_some_iff.mp ran
  obtain ⟨⟨later, c⟩, isLater, ran⟩ := Option.bind_eq_some_iff.mp ran
  cases ran
  exact ⟨datatype, found, b', later, isType, isFound, isLater, rfl⟩

theorem hashMembers_of_parts {m : Member (Option Nat)} {ms : List (Member (Option Nat))}
    {b b' c : List Nat} {datatype : Nat}
    (isType : m.typeRef = some datatype) (found : hash datatype b = some (items, b'))
    (isLater : hashMembers hash ms b' = some (others, c)) :
    hashMembers hash (m :: ms) b = some (.ofName m.name :: .str "~" :: items ++ others, c) :=
  Option.bind_eq_some_iff.mpr ⟨datatype, isType, Option.bind_eq_some_iff.mpr ⟨(items, b'), found,
    Option.bind_eq_some_iff.mpr ⟨(others, c), isLater, rfl⟩⟩⟩

/-- A name that may stand for a member. -/
def PlainMember (m : Member (Option Nat)) : Prop :=
  Distinct m.name ∧ m.name ∉ [some "->", some "\x7b", some "\x7d"]

theorem PlainMember.text_ne {m : Member (Option Nat)} (plain : PlainMember m) :
    (Item.ofName m.name).text ≠ "->" ∧ (Item.ofName m.name).text ≠ "\x7b" ∧
    (Item.ofName m.name).text ≠ "\x7d" := by
  obtain ⟨-, plain⟩ := plain
  cases isName : m.name with
  | none => decide
  | some name =>
    rw [isName] at plain
    show name ≠ "->" ∧ name ≠ "\x7b" ∧ name ≠ "\x7d"
    simpa using plain

/-- Behind a member's type there is the name of the next one, or the end. -/
theorem members_separated (rest : List String) {ms : List (Member (Option Nat))} {b c : List Nat}
    (plain : ∀ m ∈ ms, PlainMember m)
    (ran : hashMembers hash ms b = some (items, c)) :
    (texts items ++ "\x7d" :: rest).head? ≠ some "->" ∧
    (texts items ++ "\x7d" :: rest).head? ≠ some "\x7b" := by
  cases ms with
  | nil =>
    cases ran
    simp
  | cons m ms =>
    obtain ⟨datatype, found, b', later, -, -, -, rfl⟩ := hashMembers_cons ran
    obtain ⟨notArrow, notBrace, -⟩ := (plain m List.mem_cons_self).text_ne
    simpa using ⟨notArrow, notBrace⟩

theorem hashMembers_inj (back : ReadsBack types hash) {ms ns : List (Member (Option Nat))}
    {c d : List Nat}
    (plain : ∀ m ∈ ms, PlainMember m) (alsoPlain : ∀ n ∈ ns, PlainMember n)
    (regular : ∀ m ∈ ms, ∀ x, m.typeRef = some x → Unambiguous types x)
    (alsoRegular : ∀ n ∈ ns, ∀ y, n.typeRef = some y → Unambiguous types y)
    (ran : hashMembers hash ms (pairs.map Prod.fst) = some (items, c))
    (also : hashMembers hash ns (pairs.map Prod.snd) = some (others, d))
    (same : texts items ++ "\x7d" :: rest = texts others ++ "\x7d" :: later) :
    rest = later ∧ ∃ more, Visits types pairs more c d ∧
      List.Forall₂ (Paired (pairs ++ more)) ms ns := by
  induction ms generalizing ns pairs items others with
  | nil =>
    cases ran
    cases ns with
    | nil =>
      cases also
      exact ⟨List.tail_eq_of_cons_eq same, [], ⟨by rw [List.append_nil], by rw [List.append_nil],
        by simp⟩, .nil⟩
    | cons n ns =>
      obtain ⟨datatype, found, b', later, -, -, -, rfl⟩ := hashMembers_cons also
      exact absurd (List.head_eq_of_cons_eq same).symm (alsoPlain n List.mem_cons_self).text_ne.2.2
  | cons m ms ih =>
    obtain ⟨x, found, b, remaining, isType, isFound, isRemaining, rfl⟩ := hashMembers_cons ran
    cases ns with
    | nil =>
      cases also
      exact absurd (List.head_eq_of_cons_eq same) (plain m List.mem_cons_self).text_ne.2.2
    | cons n ns =>
      obtain ⟨y, alsoFound, b', alsoRemaining, isAlsoType, isAlsoFound, isAlsoRemaining, rfl⟩ :=
        hashMembers_cons also
      have plainRest : ∀ m ∈ ms, PlainMember m := fun m member => plain m (List.mem_cons_of_mem _ member)
      have alsoPlainRest : ∀ n ∈ ns, PlainMember n :=
        fun n member => alsoPlain n (List.mem_cons_of_mem _ member)
      simp only [texts_append, texts_cons, List.cons_append, List.append_assoc, List.cons.injEq] at same
      obtain ⟨names, -, same⟩ := same
      have isName := text_ofName_inj (plain m List.mem_cons_self).1
        (alsoPlain n List.mem_cons_self).1 names
      obtain ⟨notArrow, notBrace⟩ := members_separated rest plainRest isRemaining
      obtain ⟨alsoNotArrow, alsoNotBrace⟩ := members_separated later alsoPlainRest isAlsoRemaining
      -- Behind a member's type stands the next name or the end, which no optional part begins with.
      obtain ⟨ends, more, visits, member⟩ :=
        back x y pairs found alsoFound b b' _ _ (regular m List.mem_cons_self x isType)
        (alsoRegular n List.mem_cons_self y isAlsoType) isFound isAlsoFound same
        ⟨notArrow, fun _ => notBrace⟩ ⟨alsoNotArrow, fun _ => alsoNotBrace⟩
      rw [visits.first] at isRemaining
      rw [visits.second] at isAlsoRemaining
      obtain ⟨ends, most, further, others⟩ := ih plainRest alsoPlainRest
        (fun m member => regular m (List.mem_cons_of_mem _ member))
        (fun n member => alsoRegular n (List.mem_cons_of_mem _ member)) isRemaining isAlsoRemaining ends
      refine ⟨ends, more ++ most, visits.trans further, ?_⟩
      rw [← List.append_assoc]
      exact .cons ⟨isName, (x, y), List.mem_append_left _ member, isType, isAlsoType⟩ others

theorem hashList_new {depth x : Nat} {b c : List Nat} (new : x ∉ b)
    (ran : hashList types (depth + 1) x b = some (items, c)) :
    ∃ t inner b' members, types.datatype x = some t ∧
    hashInner (hashList types depth) t.inner (b ++ [x]) = some (inner, b') ∧
      hashMembers (hashList types depth) t.members b' = some (members, c) ∧
      items = hashHeader t ++ inner ++ hashDimensions t.dimensions ++ inBraces members ++
        inBraces (hashEnumerators t.enumerators) := by
  rw [hashList, if_neg new] at ran
  obtain ⟨t, isType, ran⟩ := Option.bind_eq_some_iff.mp ran
  obtain ⟨⟨inner, b'⟩, isInner, ran⟩ := Option.bind_eq_some_iff.mp ran
  obtain ⟨⟨members, c⟩, isMembers, ran⟩ := Option.bind_eq_some_iff.mp ran
  cases ran
  exact ⟨t, inner, b', members, isType, isInner, isMembers, rfl⟩

theorem hashList_of_parts {depth x : Nat} {b b' c : List Nat} {entry : DataType (Option Nat)}
    {inner members : List Item}
    (new : x ∉ b) (isType : types.datatype x = some entry)
    (isInner : hashInner (hashList types depth) entry.inner (b ++ [x]) = some (inner, b'))
    (isMembers : hashMembers (hashList types depth) entry.members b' = some (members, c)) :
    hashList types (depth + 1) x b =
      some (hashHeader entry ++ inner ++ hashDimensions entry.dimensions ++ inBraces members ++
      inBraces (hashEnumerators entry.enumerators), c) := by
  rw [hashList, if_neg new]
  exact Option.bind_eq_some_iff.mpr ⟨entry, isType, Option.bind_eq_some_iff.mpr ⟨(inner, b'), isInner,
    Option.bind_eq_some_iff.mpr ⟨(members, c), isMembers, rfl⟩⟩⟩

theorem mem_of_idxOf {x y : Nat} (first : x ∈ pairs.map Prod.fst) (second : y ∈ pairs.map Prod.snd)
    (same : (pairs.map Prod.fst).idxOf x = (pairs.map Prod.snd).idxOf y) : (x, y) ∈ pairs := by
  have inside := List.idxOf_lt_length_of_mem first
  rw [List.length_map] at inside
  have isFirst := List.getElem_idxOf (List.idxOf_lt_length_of_mem first)
  have isSecond := List.getElem_idxOf (List.idxOf_lt_length_of_mem second)
  rw [List.getElem_map] at isFirst isSecond
  simp only [← same] at isSecond
  have isPair : pairs[(pairs.map Prod.fst).idxOf x] = (x, y) := Prod.ext isFirst isSecond
  exact isPair ▸ List.getElem_mem inside

theorem dimensions_inj {l k : List (Option Int)} (both : l = [] ↔ k = [])
    (same : texts (hashDimensions l) ++ rest = texts (hashDimensions k) ++ later) :
    l = k ∧ rest = later := by
  have noSeparator (l : List (Option Int)) :
      ∀ s ∈ l.map (fun d => (Item.ofNumber d).text), 'x' ∉ s.toList := by
    intro s member
    obtain ⟨d, -, rfl⟩ := List.mem_map.mp member
    intro isIn
    rcases mem_number isIn with digit | minus | inNone
    · revert digit
      decide
    · revert minus
      decide
    · revert inNone
      decide
  cases l with
  | nil =>
    cases both.mp rfl
    exact ⟨rfl, same⟩
  | cons d l =>
    cases k with
    | nil => cases both.mpr rfl
    | cons e k =>
      obtain ⟨joined, ends⟩ := List.cons.inj same
      have parts := intercalate_inj (c :=
        'x') (noSeparator (d :: l)) (noSeparator (e :: k)) (by simp) (by simp) joined
      exact ⟨List.map_injective_iff.mpr (fun _ _ => text_ofNumber_inj) parts, ends⟩

theorem mem_joined {l : List String} {c : Char} (member : c ∈ ("x".intercalate l).toList) :
    c = 'x' ∨ ∃ s ∈ l, c ∈ s.toList := by
  induction l with
  | nil => simp at member
  | cons s l ih =>
    cases l with
    | nil => exact .inr ⟨s, List.mem_cons_self, by simpa using member⟩
    | cons t l =>
      rw [String.intercalate_cons_cons, String.toList_append, String.toList_append, List.mem_append,
        List.mem_append] at member
      rcases member with (isFirst | isSeparator) | isLater
      · exact .inr ⟨s, List.mem_cons_self, isFirst⟩
      · exact .inl (by simpa using isSeparator)
      · exact (ih isLater).imp id fun ⟨t, member, isIn⟩ => ⟨t, List.mem_cons_of_mem _ member, isIn⟩

/-- What there may be in the text of dimensions. -/
theorem mem_dimensions {l : List (Option Int)} {item : Item} {c : Char}
    (member : item ∈ hashDimensions l)
    (isIn : c ∈ item.text.toList) :
    c = 'x' ∨ c.isDigit = true ∨ c = '-' ∨ c ∈ "None".toList := by
  cases l with
  | nil => cases member
  | cons d l =>
    cases List.mem_singleton.mp member
    rw [Item.text] at isIn
    refine (mem_joined isIn).imp id ?_
    rintro ⟨s, member, isIn⟩
    obtain ⟨e, -, rfl⟩ := List.mem_map.mp member
    exact mem_number isIn

theorem head_dimensions {l : List (Option Int)} {s : String} (mark : s = "->" ∨ s = "\x7b")
    (last : l = [] → rest.head? ≠ some s) :
    (texts (hashDimensions l) ++ rest).head? ≠ some s := by
  cases isDimensions : hashDimensions l with
  | nil =>
    cases l with
    | nil => exact last rfl
    | cons d l => cases isDimensions
  | cons item items =>
    have chars {c : Char} := mem_dimensions (c :=
      c) (isDimensions ▸ List.mem_cons_self : item ∈ hashDimensions l)
    intro same
    have isText : item.text = s := Option.some.inj same
    rw [isText] at chars
    rcases mark with rfl | rfl
    · have char := chars (c := '>') (by decide)
      revert char
      decide
    · have char := chars (c := '{') (by decide)
      revert char
      decide

theorem head_inBraces {s : String} (notBrace : s ≠ "\x7b") (last : rest.head? ≠ some s) :
    (texts (inBraces items) ++ rest).head? ≠ some s := by
  cases items with
  | nil => exact last
  | cons item items => exact fun same => notBrace (Option.some.inj same).symm

/-- What stands behind the items of the inner type. -/
def ending (entry : DataType (Option Nat)) (members : List Item) (rest : List String) : List String :=
  texts (hashDimensions entry.dimensions) ++
    (texts (inBraces members) ++ (texts (inBraces (hashEnumerators entry.enumerators)) ++ rest))

variable {entry : DataType (Option Nat)} {x : Nat} {members : List Item}

theorem ending_arrow (first : rest.head? ≠ some "->") : (ending entry members rest).head? ≠ some "->" :=
  head_dimensions (.inl rfl) fun _ => head_inBraces (by decide) (head_inBraces (by decide) first)

theorem ending_separated (isType : types.datatype x = some entry) (regular : Regular types entry)
    (separated : Separated types x rest) (none : entry.members = [] → members = []) {i : Nat}
    (isInner : entry.inner = some i) :
    Separated types i (ending entry members rest) := by
  refine ⟨ending_arrow separated.1, fun isOpen => head_dimensions (.inr rfl) fun _ => ?_⟩
  have notBraced : ¬isBraced entry.kind = true := fun braced => regular.single braced i isInner isOpen
  rw [isBraced, Bool.or_eq_true, not_or] at notBraced
  have noMembers : entry.members = [] :=
    Decidable.byContradiction fun some => notBraced.1 (regular.compound some)
  have noEnumerators : entry.enumerators = [] :=
    Decidable.byContradiction fun some => notBraced.2 (decide_eq_true (regular.enum some))
  rw [none noMembers, noEnumerators]
  exact separated.2 (.inner isType isInner isOpen)

theorem enumerators_separated (isType : types.datatype x = some entry) (regular : Regular types entry)
    (separated : Separated types x rest) (compound : isCompound entry.kind = true) :
    (texts (inBraces (hashEnumerators entry.enumerators)) ++ rest).head? ≠ some "\x7b" := by
  have noEnumerators : entry.enumerators = [] := by
    refine Decidable.byContradiction fun some => ?_
    rw [regular.enum some] at compound
    cases compound
  rw [noEnumerators]
  exact separated.2 (.here isType (by rw [isBraced, compound, Bool.true_or]))

theorem members_nil {ms : List (Member (Option Nat))} {b c : List Nat}
    (ran : hashMembers hash ms b = some (items, c))
    (none : ms = []) : items = [] := by
  subst none
  cases ran
  rfl

theorem reaches_inner {i : Nat} (isType : types.datatype x = some entry)
    (isInner : entry.inner = some i) :
    Reaches (next types) x i := by
  refine .single ?_
  rw [next, isType]
  exact List.mem_append_left _ (by rw [isInner]; exact List.mem_singleton_self i)

theorem reaches_member {m : Member (Option Nat)} {i : Nat} (isType : types.datatype x = some entry)
    (member : m ∈ entry.members)
    (isMember : m.typeRef = some i) : Reaches (next types) x i := by
  refine .single ?_
  rw [next, isType]
  exact List.mem_append_right _ (List.mem_filterMap.mpr ⟨m, member, isMember⟩)

theorem Unambiguous.reached {y : Nat} (regular : Unambiguous types x)
    (reach : Reaches (next types) x y) :
    Unambiguous types y :=
  fun a entry further isType => regular a entry (reach.trans further) isType

/-- The items of two entries of one kind, behind their headers. -/
theorem entry_inj (back : ReadsBack types hash) {y : Nat} {a b : DataType (Option Nat)}
    {inner alsoInner alsoMembers : List Item}
    {v w c d : List Nat} (isA : types.datatype x = some a) (isB : types.datatype y = some b)
    (regular : Unambiguous types x) (alsoRegular : Unambiguous types y)
    (separated : Separated types x rest)
    (alsoSeparated : Separated types y later) (kind : a.kind = b.kind)
    (ranInner : hashInner hash a.inner (pairs.map Prod.fst) = some (inner, v))
    (ranMembers : hashMembers hash a.members v = some (members, c))
    (alsoRanInner : hashInner hash b.inner (pairs.map Prod.snd) = some (alsoInner, w))
    (alsoRanMembers : hashMembers hash b.members w = some (alsoMembers, d))
    (same : texts inner ++ ending a members rest = texts alsoInner ++ ending b alsoMembers later) :
    rest = later ∧ ∃ more, Visits types pairs more c d ∧ (a.name = b.name → a.bytes = b.bytes →
      Alike (pairs ++ more) a b) := by
  have isRegular := regular x a .refl isA
  have isAlsoRegular := alsoRegular y b .refl isB
  obtain ⟨ends, more, visits, isInner⟩ := hashInner_inj back
    (fun i isInner => ⟨regular.reached (reaches_inner isA isInner),
      ending_separated isA isRegular separated (members_nil ranMembers) isInner⟩)
    (fun i isInner => ⟨alsoRegular.reached (reaches_inner isB isInner),
      ending_separated isB isAlsoRegular alsoSeparated (members_nil alsoRanMembers) isInner⟩)
    ranInner alsoRanInner (ending_arrow separated.1) (ending_arrow alsoSeparated.1) same
  have both : a.dimensions = [] ↔ b.dimensions = [] := by
    by_cases array : a.kind = .array
    · exact iff_of_false (isRegular.dimensions array) (isAlsoRegular.dimensions (kind ▸ array))
    · exact iff_of_true (a.arrays array) (b.arrays (kind ▸ array))
  obtain ⟨dimensions, ends⟩ := dimensions_inj both ends
  have braces : texts members ++ "\x7d" :: (texts (inBraces (hashEnumerators a.enumerators)) ++ rest) =
      texts alsoMembers ++ "\x7d" :: (texts (inBraces (hashEnumerators b.enumerators)) ++ later) := by
    by_cases compound : isCompound a.kind = true
    · exact inBraces_inj (enumerators_separated isA isRegular separated compound)
        (enumerators_separated isB isAlsoRegular alsoSeparated (kind ▸ compound)) ends
    · have none : a.members = [] :=
        Decidable.byContradiction fun some => compound (isRegular.compound some)
      have alsoNone : b.members = [] :=
        Decidable.byContradiction fun some => compound (kind ▸ isAlsoRegular.compound some)
      rw [members_nil ranMembers none, members_nil alsoRanMembers alsoNone] at ends ⊢
      exact congrArg (List.cons "\x7d") ends
  rw [visits.first] at ranMembers
  rw [visits.second] at alsoRanMembers
  obtain ⟨ends, most, further, isMembers⟩ := hashMembers_inj back isRegular.members isAlsoRegular.members
    (fun m member i isType => regular.reached (reaches_member isA member isType))
    (fun m member i isType => alsoRegular.reached (reaches_member isB member isType)) ranMembers
      alsoRanMembers braces
  have enumerators : texts (hashEnumerators a.enumerators) ++ "\x7d" :: rest =
      texts (hashEnumerators b.enumerators) ++ "\x7d" :: later := by
    by_cases enum : a.kind = .enum
    · have alsoEnum : b.kind = .enum := kind ▸ enum
      exact inBraces_inj (separated.2 (.here isA (by rw [enum]; rfl)))
        (alsoSeparated.2 (.here isB (by rw [alsoEnum]; rfl))) ends
    · have none : a.enumerators = [] := Decidable.byContradiction fun some => enum (isRegular.enum some)
      have alsoNone : b.enumerators = [] :=
        Decidable.byContradiction fun some => enum (kind ▸ isAlsoRegular.enum some)
      rw [none, alsoNone] at ends ⊢
      exact congrArg (List.cons "\x7d") ends
  obtain ⟨isEnumerators, ends⟩ :=
    enumerators_inj isRegular.enumerators isAlsoRegular.enumerators enumerators
  refine ⟨ends, more ++ most, visits.trans further, fun name bytes => ?_⟩
  rw [← List.append_assoc]
  exact ⟨kind, name, bytes, rel_mono isInner (List.subset_append_left _ _), isMembers,
    isEnumerators, dimensions⟩

theorem backref_ne (s : String) (n : Int) : "%%" ++ s ≠ n.repr :=
  (repr_ne (c := '%') (by simp) (by decide) (by decide)).symm

/-- What `_hash_list` yields can be read back as long as the types are unambiguous. -/
theorem hashList_inj (types : DataTypes) (depth : Nat) : ReadsBack types (hashList types depth) := by
  induction depth with
  | zero =>
    intro x y pairs items others c d rest later _ _ ran
    cases ran
  | succ depth ih =>
    intro x y pairs items others c d rest later regular alsoRegular ran also same separated alsoSeparated
    by_cases visited : x ∈ pairs.map Prod.fst
    · rw [hashList, if_pos visited] at ran
      cases ran
      by_cases alsoVisited : y ∈ pairs.map Prod.snd
      · rw [hashList, if_pos alsoVisited] at also
        cases also
        obtain ⟨numbers, ends⟩ := List.cons.inj same
        have number := Nat.repr_inj.mp ((String.append_right_inj _).mp numbers)
        refine ⟨ends, [], ⟨by rw [List.append_nil], by rw [List.append_nil], by simp⟩, ?_⟩
        rw [List.append_nil]
        exact mem_of_idxOf visited alsoVisited number
      · obtain ⟨b, alsoInner, w, alsoMembers, -, -, -, rfl⟩ := hashList_new alsoVisited also
        exact absurd (List.head_eq_of_cons_eq same) (backref_ne _ _)
    · obtain ⟨a, inner, v, members, isA, ranInner, ranMembers, rfl⟩ := hashList_new visited ran
      by_cases alsoVisited : y ∈ pairs.map Prod.snd
      · rw [hashList, if_pos alsoVisited] at also
        cases also
        exact absurd (List.head_eq_of_cons_eq same).symm (backref_ne _ _)
      · obtain ⟨b, alsoInner, w, alsoMembers, isB, alsoRanInner, alsoRanMembers, rfl⟩ :=
          hashList_new alsoVisited also
        simp only [hashHeader, texts_append, texts_cons, List.cons_append, List.nil_append,
          List.append_assoc,
          List.cons.injEq] at same
        obtain ⟨kinds, names, bytes, same⟩ := same
        have kind := value_inj kinds
        have name := text_ofName_inj (regular x a .refl isA).name (alsoRegular y b .refl isB).name names
        have byteSize := Option.map_injective (fun _ _ => Int.ofNat.inj) (text_ofNumber_inj bytes)
        have first : pairs.map Prod.fst ++ [x] = (pairs ++ [(x, y)]).map Prod.fst :=
          by rw [List.map_append]; rfl
        have second : pairs.map Prod.snd ++ [y] = (pairs ++ [(x, y)]).map Prod.snd :=
          by rw [List.map_append]; rfl
        rw [first] at ranInner
        rw [second] at alsoRanInner
        obtain ⟨ends, more, visits, alike⟩ :=
          entry_inj ih isA isB regular alsoRegular separated alsoSeparated kind
          ranInner ranMembers alsoRanInner alsoRanMembers same
        -- The new pair is alike only in the end, when what its types refer to has been paired.
        refine ⟨ends, (x, y) :: more, ?_, List.mem_append_right _ List.mem_cons_self⟩
        have shift : pairs ++ (x, y) :: more = pairs ++ [(x, y)] ++ more := List.append_cons _ _ _
        refine ⟨by rw [shift]; exact visits.first, by rw [shift]; exact visits.second,
          fun p member => ?_⟩
        rw [shift]
        rcases List.mem_cons.mp member with rfl | later
        · exact ⟨a, b, isA, isB, alike name byteSize⟩
        · exact visits.alike p later

end

end Adbi.TypeReadingProofs
