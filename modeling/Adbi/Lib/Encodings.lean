import Adbi.Lib.Words

/-! Sets of words that are given by bits they have and bits they do not have.
Whether such a set is empty is decided on the bits alone, so that facts about
every word of a machine's encodings are checked class by class. -/
namespace Adbi.Lib

variable {n : Nat} {α : Type}

/-- Values for some bits of a word. -/
structure Bits where
  mask : Nat
  value : Nat

def Pattern.bits (p : Pattern) : Bits := ⟨p.mask, p.value⟩

/-- The same bits, further up in a longer word. -/
def Bits.shift (b : Bits) (low : Nat) : Bits := ⟨b.mask <<< low, b.value <<< low⟩

/-- The bits of a field that has the given value. -/
def Bits.ofField (low : Nat) (value : BitVec length) : Bits :=
  Bits.shift ⟨2 ^ length - 1, value.toNat⟩ low

/-- The word has the bits. -/
def Bits.of (b : Bits) (w : BitVec n) : Prop := w &&& BitVec.ofNat n b.mask = BitVec.ofNat n b.value

instance (b : Bits) (w : BitVec n) : Decidable (b.of w) := inferInstanceAs (Decidable (_ = _))

/-- The bits of both. -/
def Bits.union (b b' : Bits) : Bits := ⟨b.mask ||| b'.mask, b.value ||| b'.value⟩

/-- Some bit has different values. -/
def Bits.conflicts (n : Nat) (b b' : Bits) : Bool :=
  (b.mask &&& b'.mask &&& (b.value ^^^ b'.value)) % 2 ^ n != 0

/-- The bits are among those of `b'`. -/
def Bits.inside (b b' : Bits) : Bool := b.mask &&& b'.mask == b.mask && b'.value &&& b.mask == b.value

/-- Words that have all bits of some kinds and not all bits of others. -/
structure Encodings where
  has : List Bits
  lacks : List Bits

namespace Encodings

def holds (e : Encodings) (w : BitVec n) : Prop := (∀ b ∈ e.has, b.of w) ∧ ∀ b ∈ e.lacks, ¬b.of w

/-- The words of both. -/
def both (e e' : Encodings) : Encodings := ⟨e.has ++ e'.has, e.lacks ++ e'.lacks⟩

/-- All bits that the words have, taken together. -/
def known (e : Encodings) : Bits := e.has.foldr Bits.union ⟨0, 0⟩

/-- Some of the bits that the words have exclude each other. -/
def contradictory (n : Nat) (e : Encodings) : Bool :=
  e.has.any fun b => e.has.any fun b' => b.conflicts n b'

/-- The bits that the words have exclude each other, or they add up to bits that one of the two sets
lacks. -/
def apart (n : Nat) (e e' : Encodings) : Bool :=
  e.known.conflicts n e'.known || (e.lacks ++ e'.lacks).any (·.inside (e.known.union e'.known))

end Encodings

theorem wordMatches_bits {w : BitVec n} {p : Pattern} : wordMatches w p = true ↔ p.bits.of w :=
  wordMatches_iff

/-- Bits of a field are bits of the word. -/
theorem Bits.of_field {w : BitVec n} {b : Bits} (low k : Nat) (inside : low + k ≤ n)
    (mask : b.mask < 2 ^ k)
    (value : b.value < 2 ^ k) : b.of (field w low k) ↔ (b.shift low).of w := by
  unfold Bits.of Bits.shift
  constructor
  · intro same
    apply BitVec.eq_of_getLsbD_eq
    intro i h
    have here := congrArg (·.getLsbD (i - low)) same
    simp [field, BitVec.getLsbD_ofNat, Nat.testBit_shiftLeft] at here ⊢
    by_cases below : i - low < k
    · grind
    · have above : 2 ^ k ≤ 2 ^ (i - low) := Nat.pow_le_pow_right (by decide) (Nat.le_of_not_lt below)
      simp [Nat.testBit_lt_two_pow (Nat.lt_of_lt_of_le mask above),
        Nat.testBit_lt_two_pow (Nat.lt_of_lt_of_le value above)]
  · intro same
    apply BitVec.eq_of_getLsbD_eq
    intro i h
    have here := congrArg (·.getLsbD (low + i)) same
    simp [field, BitVec.getLsbD_ofNat, Nat.testBit_shiftLeft] at here ⊢
    grind

theorem wordMatches_field {w : BitVec n} {p : Pattern} (low k : Nat) (inside : low + k ≤ n)
    (mask : p.mask < 2 ^ k)
    (value : p.value < 2 ^ k) : wordMatches (field w low k) p = true ↔ (p.bits.shift low).of w := by
  rw [wordMatches_bits, Bits.of_field low k inside mask value]

theorem field_eq_iff {w : BitVec n} {length : Nat} (low : Nat) (v : BitVec length)
    (inside : low + length ≤ n) :
    field w low length = v ↔ (Bits.ofField low v).of w := by
  have all : BitVec.ofNat length (2 ^ length - 1) = BitVec.allOnes length := by
    apply BitVec.eq_of_getLsbD_eq
    intro i h
    simp [BitVec.getLsbD_ofNat, Nat.testBit_two_pow_sub_one]
  have small : 2 ^ length - 1 < 2 ^ length := Nat.sub_lt (Nat.two_pow_pos length) (by decide)
  rw [Bits.ofField, ← Bits.of_field low length inside small v.isLt]
  simp [Bits.of, all]

private theorem Bits.of_union {w : BitVec n} {b b' : Bits} (here : b.of w) (there : b'.of w) :
    (b.union b').of w := by
  unfold Bits.of at *
  simp only [Bits.union, BitVec.ofNat_or]
  rw [← here, ← there]
  ext i
  simp
  grind

private theorem Bits.of_known {w : BitVec n} {e : Encodings} (all : ∀ b ∈ e.has, b.of w) :
    e.known.of w := by
  unfold Encodings.known
  generalize e.has = has at *
  induction has with
  | nil => simp [Bits.of]
  | cons b rest ih =>
    exact Bits.of_union (all b List.mem_cons_self) (ih fun b member =>
      all b (List.mem_cons_of_mem _ member))

private theorem Bits.not_both {w : BitVec n} {b b' : Bits} (here : b.of w)
    (conflicts : b.conflicts n b' = true) :
    ¬b'.of w := by
  intro there
  rw [Bits.conflicts, bne_iff_ne, ← BitVec.toNat_ofNat] at conflicts
  apply conflicts
  rw [BitVec.ofNat_and, BitVec.ofNat_and, BitVec.ofNat_xor, ← here, ← there]
  rw [show (0 : Nat) = (0#n).toNat by simp]
  congr 1
  ext i
  simp
  grind

theorem Bits.of_inside {w : BitVec n} {b b' : Bits} (there : b'.of w)
    (inside : b.inside b' = true) : b.of w := by
  simp only [Bits.inside, Bool.and_eq_true, beq_iff_eq] at inside
  unfold Bits.of at *
  rw [← inside.2, ← inside.1, BitVec.ofNat_and, BitVec.ofNat_and, BitVec.ofNat_and, ← there]
  ext i
  simp
  grind

theorem Encodings.not_holds_of_contradictory {w : BitVec n} {e : Encodings}
    (contradictory : e.contradictory n = true) :
    ¬e.holds w := by
  intro holds
  obtain ⟨b, member, rest⟩ := List.any_eq_true.mp contradictory
  obtain ⟨b', member', conflicts⟩ := List.any_eq_true.mp rest
  exact Bits.not_both (holds.1 b member) conflicts (holds.1 b' member')

/-- A word that matches a pattern matches one that fixes less. -/
theorem matches_of_inside {w : BitVec n} {p q : Pattern} (has : wordMatches w p = true)
    (inside : q.bits.inside p.bits = true) : wordMatches w q = true :=
  wordMatches_bits.mpr (Bits.of_inside (wordMatches_bits.mp has) inside)

/-- A word matches a pattern whose bits are among those that it is known to have. -/
theorem matches_of_known {w : BitVec n} {p : Pattern} (has : List Bits) (all : ∀ b ∈ has, b.of w)
    (inside : p.bits.inside (Encodings.known ⟨has, []⟩) = true) : wordMatches w p = true :=
  wordMatches_bits.mpr (Bits.of_inside (Bits.of_known (e := ⟨has, []⟩) all) inside)

/-- Sets that are apart by their bits have no word in common. -/
theorem Encodings.not_holds_of_apart {w : BitVec n} {e e' : Encodings} (apart : e.apart n e' = true)
    (first : e.holds w) :
    ¬e'.holds w := by
  intro second
  have known := Bits.of_known first.1
  have known' := Bits.of_known second.1
  rcases Bool.or_eq_true _ _ ▸ apart with conflict | covered
  · exact Bits.not_both known conflict known'
  · obtain ⟨b, member, inside⟩ := List.any_eq_true.mp covered
    have has := Bits.of_inside (Bits.of_union known known') inside
    rcases List.mem_append.mp member with member | member
    · exact first.2 b member has
    · exact second.2 b member has

theorem Encodings.holds_both {w : BitVec n} {e e' : Encodings} (first : e.holds w)
    (second : e'.holds w) :
    (e.both e').holds w := by
  constructor
  · intro b member
    rcases List.mem_append.mp member with member | member
    · exact first.1 b member
    · exact second.1 b member
  · intro b member
    rcases List.mem_append.mp member with member | member
    · exact first.2 b member
    · exact second.2 b member

/-! ## Tables -/

/-- The entries of a table with the words that are decoded to them: those that match the pattern and
none before. -/
def tableEncodings : List (Pattern × α) → List (Encodings × α)
  | [] => []
  | (p, entry) :: rest =>
    (⟨[p.bits], []⟩, entry) :: (tableEncodings rest).map fun later =>
      (⟨later.1.has, p.bits :: later.1.lacks⟩, later.2)

theorem decodeWith_encodings {table : List (Pattern × α)} {w : BitVec n} {entry : α}
    (decoded : decodeWith table w = some entry) :
    ∃ e, (e, entry) ∈ tableEncodings table ∧ e.holds w := by
  induction table with
  | nil => simp [decodeWith] at decoded
  | cons head rest ih =>
    obtain ⟨p, first⟩ := head
    cases here : wordMatches w p with
    | true =>
      simp only [decodeWith, List.find?_cons, here, Option.map_some, Option.some.injEq] at decoded
      subst decoded
      refine ⟨⟨[p.bits], []⟩, by simp [tableEncodings], ?_⟩
      simpa [Encodings.holds] using wordMatches_bits.mp here
    | false =>
      simp only [decodeWith, List.find?_cons, here] at decoded
      obtain ⟨e, member, holds⟩ := ih decoded
      refine ⟨⟨e.has, p.bits :: e.lacks⟩, ?_, holds.1, ?_⟩
      · simp only [tableEncodings, List.mem_cons, List.mem_map]
        exact .inr ⟨_, member, rfl⟩
      · intro b member
        rcases List.mem_cons.mp member with rfl | member
        · rw [← wordMatches_bits, here]
          simp
        · exact holds.2 b member

end Adbi.Lib
