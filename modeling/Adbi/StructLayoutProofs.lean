import Mathlib.Algebra.BigOperators.Group.Finset.Basic
import Mathlib.Algebra.BigOperators.Intervals
import Adbi.StructLayout

/-! Where the members of a packed structure come to stand. The reckoned offset counts in bits
behind a gap, so that it is ahead of the fields from there on. -/
namespace Adbi.StructLayoutProofs
open Adbi.Lib Adbi.Lib.CDecl Adbi.DeclaratorProofs Adbi.StructLayout
open Adbi.Declarators (Text)

/-- The members among the fields stand at their offsets. -/
def AllPlaced (place : Nat) (fields : List Field) : Prop :=
  ∀ m at_, (.member m, at_) ∈ places Field.size place fields → at_ = m.offset / 8

/-- Every member of the structure stands at its offset. -/
def Placed (word : Nat) (rows : List Row) : Prop :=
  ∃ fields, layout word rows = some fields ∧ ∀ m place, (.member m, place) ∈ fields →
  place = m.offset / 8

/-- Each member starts where the one before it ends, with the reckoning not behind, or further on,
with the reckoning not ahead either. Behind a gap it is ahead by the difference between the offset
in bits and in bytes, and every member changes it by the difference between the two sizes. -/
def InStep (ending : Nat) (ahead : Int) : List Member → Prop
  | [] => True
  | m :: rest => ∃ byteSize, m.byteSize = some byteSize ∧
      (m.offset / 8 = ending ∧ 0 ≤ ahead ∧
        InStep (m.offset / 8 + m.sizeof) (ahead + byteSize - m.sizeof) rest ∨
        ending < m.offset / 8 ∧ ahead = 0 ∧
          InStep (m.offset / 8 + m.sizeof) (m.offset - m.offset / 8 + byteSize - m.sizeof) rest)

theorem allPlaced_member {m : Member} {place : Nat} {fields : List Field} :
    AllPlaced place (.member m :: fields) ↔
    place = m.offset / 8 ∧ AllPlaced (place + m.sizeof) fields := by
  constructor
  · exact fun placed => ⟨placed m place List.mem_cons_self,
      fun n at_ member => placed n at_ (List.mem_cons_of_mem _ member)⟩
  · rintro ⟨here, later⟩ n at_ member
    rcases List.mem_cons.mp member with same | member
    · cases same
      exact here
    · exact later n at_ member

theorem allPlaced_padding {num bytes place : Nat} {fields : List Field} :
    AllPlaced place (.padding num bytes :: fields) ↔ AllPlaced (place + bytes) fields := by
  constructor
  · exact fun placed n at_ member => placed n at_ (List.mem_cons_of_mem _ member)
  · intro later n at_ member
    rcases List.mem_cons.mp member with same | member
    · cases same
    · exact later n at_ member

/-- The fields from some point on are right if and only if the members are in step. -/
theorem fields_placed_iff (members : List Member) (offset num place : Nat) :
    (∃ fields, defineMembers offset num members = some fields ∧ AllPlaced place fields) ↔
      InStep place (offset - place) members := by
  induction members generalizing offset num place with
  | nil => exact iff_of_true ⟨[], rfl, fun m at_ member => absurd member List.not_mem_nil⟩ trivial
  | cons m rest ih =>
    rw [defineMembers, InStep]
    cases m.byteSize with
    | none => simp
    | some byteSize =>
      simp only [Option.some.injEq, exists_eq_left']
      by_cases gap : offset < m.offset / 8
      · have next := ih (m.offset + byteSize) (num + 1) (m.offset / 8 + m.sizeof)
        have ahead : ((m.offset + byteSize : Nat) : Int) - (m.offset / 8 + m.sizeof : Nat) =
            m.offset - m.offset / 8 + byteSize - m.sizeof := by omega
        rw [ahead] at next
        rw [if_pos gap]
        constructor
        · rintro ⟨fields, defined, placed⟩
          obtain ⟨later, isLater, same⟩ := Option.bind_eq_some_iff.mp defined
          cases same
          rw [allPlaced_padding, allPlaced_member] at placed
          obtain ⟨here, rest⟩ := placed
          rw [here] at rest
          exact .inr ⟨by omega, by omega, next.mp ⟨later, isLater, rest⟩⟩
        · rintro (⟨here, ahead, -⟩ | ⟨further, level, inStep⟩)
          · omega
          · obtain ⟨later, isLater, placed⟩ := next.mpr inStep
            rw [isLater]
            refine ⟨_, rfl, allPlaced_padding.mpr (allPlaced_member.mpr ?_)⟩
            have here : place + (m.offset / 8 - offset) = m.offset / 8 := by omega
            rw [here]
            exact ⟨rfl, placed⟩
      · have next := ih (offset + byteSize) num (m.offset / 8 + m.sizeof)
        rw [if_neg gap]
        constructor
        · rintro ⟨fields, defined, placed⟩
          obtain ⟨later, isLater, same⟩ := Option.bind_eq_some_iff.mp defined
          cases same
          obtain ⟨here, rest⟩ := allPlaced_member.mp placed
          rw [here] at rest
          have ahead : ((offset + byteSize : Nat) : Int) - (m.offset / 8 + m.sizeof : Nat) =
              (offset : Int) - place + byteSize - m.sizeof := by omega
          rw [ahead] at next
          exact .inl ⟨here.symm, by omega, next.mp ⟨later, isLater, rest⟩⟩
        · rintro (⟨here, notBehind, inStep⟩ | ⟨further, level, -⟩)
          · have ahead : ((offset + byteSize : Nat) : Int) - (m.offset / 8 + m.sizeof : Nat) =
                (offset : Int) - place + byteSize - m.sizeof := by omega
            rw [ahead] at next
            obtain ⟨later, isLater, placed⟩ := next.mpr inStep
            rw [isLater]
            refine ⟨_, rfl, allPlaced_member.mpr ⟨here.symm, ?_⟩⟩
            rw [← here]
            exact placed
          · omega

/-! ## The reckoning in closed form -/

section
variable (members : List Member)

def nth (i : Nat) : Member := members.getD i ⟨0, 0, none, 0⟩

/-- Where a member should be. -/
def place (i : Nat) : Nat := (nth members i).offset / 8

/-- Where the member before it ends in C. -/
def ending : Nat → Nat
  | 0 => 0
  | i + 1 => place members i + (nth members i).sizeof

/-- There is a gap in front of a member. -/
def Gap (i : Nat) : Prop := ending members i < place members i

instance : DecidablePred (Gap members) :=
  fun i => inferInstanceAs (Decidable (ending members i < place members i))

/-- By how much a member makes the reckoning larger than the structure: by the difference of its
sizes, and behind a gap by the difference between its offset in bits and in bytes. -/
def share (i : Nat) : Int :=
  ((nth members i).byteSize.getD 0 : Nat) - ((nth members i).sizeof : Int) +
    if Gap members i then ((nth members i).offset : Int) - place members i else 0

/-- The members that are reckoned with are those since the last gap. -/
def surplus (i : Nat) : Int :=
  ∑ j ∈ Finset.range i, if ∀ k < i, j < k → ¬Gap members k then share members j else 0

/-- A member of known size starts where the one before it ends, with no deficit, or behind a gap,
with the sizes since the gap before in balance. -/
structure InPlace (i : Nat) : Prop where
  sized : (nth members i).byteSize.isSome = true
  behind : ending members i ≤ place members i
  contiguous : ending members i = place members i → 0 ≤ surplus members i
  balanced : Gap members i → surplus members i = 0

end

theorem surplus_zero (members : List Member) : surplus members 0 = 0 := rfl

theorem surplus_succ (members : List Member) (i : Nat) :
    surplus members (i + 1) = (if Gap members i then 0 else surplus members i) + share members i := by
  rw [surplus, Finset.sum_range_succ, if_pos fun k inside behind => absurd behind (by omega)]
  congr 1
  split
  · rename_i gap
    refine Finset.sum_eq_zero fun j inside => if_neg fun none => ?_
    exact none i (Nat.lt_succ_self i) (Finset.mem_range.mp inside) gap
  · rename_i noGap
    refine Finset.sum_congr rfl fun j inside =>
      if_congr ⟨fun none k upto => none k (by omega), fun none k upto behind => ?_⟩ rfl rfl
    by_cases last : k = i
    · exact last ▸ noGap
    · exact none k (by omega) behind

/-- The members from one on are in step if and only if each of them fits. -/
theorem inStep_iff_inPlace (members : List Member) (i : Nat) :
    InStep (ending members i) (surplus members i) (members.drop i) ↔
    ∀ j, i ≤ j → j < members.length → InPlace members j := by
  by_cases inside : i < members.length
  · have here : nth members i = members[i] := by simp [nth, inside]
    have next := inStep_iff_inPlace members (i + 1)
    have later : (∀ j, i ≤ j → j < members.length → InPlace members j) ↔
        InPlace members i ∧ ∀ j, i + 1 ≤ j → j < members.length → InPlace members j := by
      refine ⟨fun all => ⟨all i le_rfl inside, fun j behind => all j (by omega)⟩,
        fun ⟨first, rest⟩ j behind upto => ?_⟩
      rcases Nat.eq_or_lt_of_le behind with rfl | further
      · exact first
      · exact rest j further upto
    rw [List.drop_eq_getElem_cons inside, later, ← next, ← here, InStep, surplus_succ]
    have ends : (nth members i).offset / 8 + (nth members i).sizeof = ending members (i + 1) := rfl
    have starts : (nth members i).offset / 8 = place members i := rfl
    constructor
    · rintro ⟨byteSize, isSize, (⟨at_, ahead, rest⟩ | ⟨further, level, rest⟩)⟩
      · have noGap : ¬Gap members i := fun gap => absurd gap (by rw [Gap, ← starts, at_]; omega)
        refine ⟨⟨by rw [isSize]; rfl, by omega, fun _ => ahead, fun gap => absurd gap noGap⟩, ?_⟩
        rw [ends] at rest
        simpa [share, isSize, noGap, add_sub_assoc] using rest
      · refine ⟨⟨by rw [isSize]; rfl, by omega, by omega, fun _ => level⟩, ?_⟩
        rw [ends] at rest
        have gap : Gap members i := further
        have shares : share members i =
            (nth members i).offset - (place members i : Int) + byteSize - (nth members i).sizeof := by
          rw [share, if_pos gap, isSize, Option.getD_some]
          omega
        rwa [if_pos gap, zero_add, shares]
    · rintro ⟨fits, rest⟩
      obtain ⟨byteSize, isSize⟩ := Option.isSome_iff_exists.mp fits.sized
      refine ⟨byteSize, isSize, ?_⟩
      by_cases gap : Gap members i
      · have shares : share members i =
            (nth members i).offset - (place members i : Int) + byteSize - (nth members i).sizeof := by
          rw [share, if_pos gap, isSize, Option.getD_some]
          omega
        rw [if_pos gap, zero_add, shares] at rest
        exact .inr ⟨gap, fits.balanced gap, rest⟩
      · have at_ : ending members i = place members i :=
          Nat.le_antisymm fits.behind (Nat.le_of_not_lt gap)
        rw [if_neg gap, share, if_neg gap, isSize, Option.getD_some, add_zero, ← add_sub_assoc] at rest
        exact .inl ⟨at_.symm, fits.contiguous at_, rest⟩
  · rw [List.drop_eq_nil_of_le (Nat.le_of_not_lt inside)]
    exact iff_of_true trivial fun j behind upto => absurd upto (by omega)
termination_by members.length - i

/-! ## Right sizes -/

/-- Byte-aligned members whose `byte_size` is their size in C. -/
def Regular (members : List Member) : Prop := ∀ m ∈ members, 8 ∣ m.offset ∧ m.byteSize = some m.sizeof

/-- Each member starts where the one before it ends. -/
def Contiguous : Nat → List Member → Prop
  | _, [] => True
  | ending, m :: rest => m.offset / 8 = ending ∧ Contiguous (ending + m.sizeof) rest

/-- Each member but one starts where the one before it ends, and that one further on. -/
def OneGap : Nat → List Member → Prop
  | _, [] => True
  | ending, m :: rest =>
    m.offset / 8 = ending ∧ OneGap (ending + m.sizeof) rest ∨
      ending < m.offset / 8 ∧ Contiguous (m.offset / 8 + m.sizeof) rest

theorem inStep_ahead {members : List Member} (regular : Regular members) (ending : Nat) {ahead : Int}
    (positive : 0 < ahead) : InStep ending ahead members ↔ Contiguous ending members := by
  induction members generalizing ending with
  | nil => exact Iff.rfl
  | cons m rest ih =>
    obtain ⟨-, isSize⟩ := regular m List.mem_cons_self
    have same : ahead + (m.sizeof : Int) - m.sizeof = ahead := by omega
    have next := ih (fun n member => regular n (List.mem_cons_of_mem m member)) (ending + m.sizeof)
    rw [InStep, Contiguous, isSize, ← next]
    simp only [Option.some.injEq, exists_eq_left', same]
    constructor
    · rintro (⟨here, -, rest⟩ | ⟨-, level, -⟩)
      · rw [here] at rest
        exact ⟨here, rest⟩
      · omega
    · rintro ⟨here, rest⟩
      rw [here]
      exact .inl ⟨rfl, by omega, rest⟩

/-- With right sizes there may be one gap, after which the reckoning is ahead for good. -/
theorem inStep_regular {members : List Member} (regular : Regular members) (ending : Nat) :
    InStep ending 0 members ↔ OneGap ending members := by
  induction members generalizing ending with
  | nil => exact Iff.rfl
  | cons m rest ih =>
    obtain ⟨aligned, isSize⟩ := regular m List.mem_cons_self
    have others : Regular rest := fun n member => regular n (List.mem_cons_of_mem m member)
    have level : (0 : Int) + m.sizeof - m.sizeof = 0 := by omega
    rw [InStep, OneGap, isSize]
    simp only [Option.some.injEq, exists_eq_left', level]
    constructor
    · rintro (⟨here, -, rest⟩ | ⟨further, -, rest⟩)
      · rw [here] at rest
        exact .inl ⟨here, (ih others _).mp rest⟩
      · exact .inr ⟨further, (inStep_ahead others _ (by omega)).mp rest⟩
    · rintro (⟨here, rest⟩ | ⟨further, rest⟩)
      · rw [here]
        exact .inl ⟨rfl, by omega, (ih others _).mpr rest⟩
      · exact .inr ⟨further, trivial, (inStep_ahead others _ (by omega)).mpr rest⟩

/-! ## Sizes in C -/

/-- The size is that of the type which the definition declares, as C reads it. -/
theorem sizeof_read {word size : Nat} {t : DataType} (isSize : t.sizeof word = some size) {name : Text}
    (identifier : Identifier name) :
    ∃ lines type, t.declarator.defineVar (some name) = some lines ∧ read (lex (lines.getLastD [])) =
      some (name, type) ∧
      sizeofType word (t.specified word) type = some size := by
  rw [DataType.sizeof, sizeofVar] at isSize
  split at isSize
  · rename_i defines
    obtain ⟨spec, isSpec⟩ := Option.isSome_iff_exists.mp defines.1
    have defined : t.declarator.defineVar (some name) = some _ :=
      Option.map_eq_some_iff.mpr ⟨spec, isSpec, rfl⟩
    exact ⟨_, _, defined, read_defineVar defines.2.1 identifier defined, isSize⟩
  · cases isSize

/-- The dimensions of an array multiply the size of its elements. -/
theorem sizeofType_arrays {word size : Nat} {specified : Option Nat} {t : CType}
    (isSize : sizeofType word specified t = some size)
    (dimensions : List Nat) :
    sizeofType word specified (t.arrays (dimensions.map some)) = some (dimensions.prod * size) := by
  induction dimensions with
  | nil => simpa [CType.arrays] using isSize
  | cons n rest ih =>
    show (sizeofType word specified (t.arrays (rest.map some))).map (n * ·) = _
    rw [ih, Option.map_some, List.prod_cons, Nat.mul_assoc]

theorem product_eq (first : Nat) (rest : List Nat) :
    product ((first :: rest).map some) = some (first :: rest).prod := by
  have fold : ∀ (l : List Nat) (n : Nat), (l.map some).foldl (fun size d => size * d.getD 0) n =
      n * l.prod := by
    intro l
    induction l with
    | nil => simp
    | cons d l ih => simp [ih, Nat.mul_assoc]
  simp [product, fold]

/-- The words of the specifier do not matter. -/
def unnamed : CType → CType
  | .base _ quals => .base [] quals
  | .pointer quals target => .pointer quals (unnamed target)
  | .array n element => .array n (unnamed element)

theorem sizeofType_unnamed (word : Nat) (specified : Option Nat) (t : CType) :
    sizeofType word specified (unnamed t) = sizeofType word specified t := by
  induction t with
  | base => rfl
  | pointer => rfl
  | array n element ih =>
    cases n with
    | none => rfl
    | some n => exact congrArg (Option.map (n * ·)) ih

theorem unnamed_qualify (q : Qualifiers) (t : CType) :
    unnamed (t.qualify q) = (unnamed t).qualify q := by
  induction t with
  | base => rfl
  | pointer => rfl
  | array n element ih => exact congrArg (CType.array n) ih

theorem unnamed_declaredOver (tokens : List Token) (t : Declarators.DataType) :
    unnamed (declaredOver (.base tokens .none) t) = declaredOver (.base [] .none) t := by
  have arrays : ∀ (sizes : List (Option Nat)) (b : CType), unnamed (b.arrays sizes) =
      (unnamed b).arrays sizes := by
    intro sizes b
    induction sizes with
    | nil => rfl
    | cons n rest ih => exact congrArg (CType.array n) ih
  have marked : ∀ (marks : List Mark) (b : CType), unnamed (marks.foldl CType.marked b) =
      marks.foldl CType.marked (unnamed b) := by
    intro marks
    induction marks with
    | nil => exact fun _ => rfl
    | cons m rest ih =>
      intro b
      rw [List.foldl_cons, List.foldl_cons, ih]
      congr 1
      cases m with
      | star => rfl
      | volatile | restrict => exact unnamed_qualify _ _
  rw [declaredOver, declaredOver, arrays, marked]
  rfl

/-- The size of an array leaves the size of its elements out. -/
theorem array_size_iff {word size first : Nat} {rest : List Nat} {inner : DataType}
    (isSize : inner.sizeof word = some size)
    (defines : Defines (DataType.array none ((first :: rest).map some) inner).declarator) :
    (DataType.array none ((first :: rest).map some) inner).byteSize =
        (DataType.array none ((first :: rest).map some) inner).sizeof word ↔
      (first :: rest).prod = 0 ∨ size = 1 := by
  have bytes : (DataType.array none ((first :: rest).map some) inner).byteSize =
      some (first :: rest).prod := by
    rw [DataType.byteSize, if_neg (by simp), product_eq]
  have room : (DataType.array none ((first :: rest).map some) inner).sizeof word =
      some ((first :: rest).prod * size) := by
    rw [DataType.sizeof, sizeofVar, if_pos defines]
    rw [DataType.sizeof, sizeofVar] at isSize
    split at isSize
    · have spelled : declared (DataType.array none ((first :: rest).map some) inner).declarator =
          (declaredOver (.base (codeTokens inner.declarator.innermost) .none) inner.declarator).arrays
            ((first :: rest).map some) := CType.arrays_append _ _ _
      rw [spelled]
      apply sizeofType_arrays
      rw [← isSize, ← sizeofType_unnamed,
        declared, ← sizeofType_unnamed _ _ (declaredOver _ inner.declarator),
        unnamed_declaredOver, unnamed_declaredOver, DataType.specified]
    · cases isSize
  rw [bytes, room, Option.some.injEq]
  constructor
  · intro same
    rcases Nat.eq_zero_or_pos (first :: rest).prod with zero | positive
    · exact .inl zero
    · exact .inr (Nat.eq_of_mul_eq_mul_left positive (same.symm.trans (Nat.mul_one _).symm))
  · rintro (zero | one)
    · rw [zero, Nat.zero_mul]
    · rw [one, Nat.mul_one]

/-! ## Structures -/

theorem inStep_of_placed {word : Nat} {rows : List Row} (placed : Placed word rows) :
    ∃ members, membersOf word rows = some members ∧ InStep 0 0 (sortMembers members) := by
  obtain ⟨fields, laidOut, placed⟩ := placed
  obtain ⟨members, isMembers, laidOut⟩ := Option.bind_eq_some_iff.mp laidOut
  obtain ⟨defined, isDefined, same⟩ := Option.bind_eq_some_iff.mp laidOut
  cases same
  exact ⟨members, isMembers, (fields_placed_iff (sortMembers members) 0 0 0).mp ⟨defined,
    isDefined, placed⟩⟩

/-- `struct { char a; int b; char c; int d; }`. -/
private def mixed : List Row :=
  [⟨0, 0, some ['a'], .plain (.char true 1) (some 1) (some 1)⟩,
    ⟨1, 32, some ['b'], .plain (.int true 4) (some 4) (some 4)⟩,
    ⟨2, 64, some ['c'], .plain (.char true 1) (some 1) (some 1)⟩,
    ⟨3, 96, some ['d'], .plain (.int true 4) (some 4) (some 4)⟩]

private def mixedMembers : List Member :=
  [⟨0, 0, some 1, 1⟩, ⟨1, 32, some 4, 4⟩, ⟨2, 64, some 1, 1⟩, ⟨3, 96, some 4, 4⟩]

/-- An array of an enumeration has no definition in C. -/
example : (DataType.array none [some 1]
      (.plain (.enum 1 "color".toList []) (some 4) (some 4))).sizeof 4 = none := by decide

end Adbi.StructLayoutProofs
