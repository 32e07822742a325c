import Adbi.MemWrite

/-! Which bytes of the inferior a write changes, and when it comes to its end.
A word is read and written with `unsigned long`s, so that on a 64-bit server the
word after it must be mapped too. -/
namespace Adbi.MemWriteProofs
open Adbi.Lib Adbi.MemWrite

variable {n : Nat} {before after : Inferior n} {a b : BitVec n} {data : Nat → BitVec 8}

/-! ## One word -/

theorem getLsbD_armWord (byte : Nat → BitVec 8) (i : Nat) :
    (armWord byte).getLsbD i = (decide (i < 32) && (byte (i / 8)).getLsbD (i % 8)) := by
  by_cases inside : i < 32
  · have here : i / 8 < 4 := by omega
    rw [armWord, getLsbD_ofLittleEndian _ i inside]
    simp [inside, List.getD_eq_getElem?_getD, here]
  · simp [inside, BitVec.getLsbD_of_ge _ i (Nat.not_lt.mp inside)]

/-- The bytes that a masked word changes. -/
theorem masked_byte (whole : 8 ∣ n) (m : BitVec n → BitVec 8) (inside : Nat → Bool)
    (byte : Nat → BitVec 8)
    (low : ∀ offset, inside offset = true → offset < 4) (room : 4 ≤ n / 8) :
    storeLE m a ((loadLE n m a &&& ~~~(armWord fun offset =>
      if inside offset then 0xff#8 else 0#8).setWidth n) |||
      (armWord fun offset => if inside offset then byte offset else 0#8).setWidth n) b =
      if inside (b - a).toNat then byte (b - a).toNat else m b := by
  have back : a + BitVec.ofNat n (b - a).toNat = b := by
    rw [BitVec.ofNat_toNat, BitVec.setWidth_eq, BitVec.add_comm, BitVec.sub_add_cancel]
  rw [storeLE]
  generalize (b - a).toNat = offset at back
  split
  · rename_i here
    have bound : 8 * offset + 8 ≤ n := by
      obtain ⟨k, rfl⟩ := whole
      omega
    apply BitVec.eq_of_getLsbD_eq
    intro j inByte
    have bit : 8 * offset + j < n := by omega
    have byteOf : (8 * offset + j) / 8 = offset := by omega
    have bitOf : (8 * offset + j) % 8 = j := by omega
    rw [BitVec.getLsbD_extractLsb', BitVec.getLsbD_or, BitVec.getLsbD_and, BitVec.getLsbD_not,
      BitVec.getLsbD_setWidth,
      BitVec.getLsbD_setWidth, getLsbD_armWord, getLsbD_armWord, getLsbD_loadLE whole _ bit,
      byteOf, bitOf, back]
    cases isInside : inside offset with
    | true =>
      have small : 8 * offset + j < 32 := by
        have := low offset isInside
        omega
      have full : (255#8)[j] = true := by
        rw [← BitVec.getLsbD_eq_getElem, show (255#8) = BitVec.allOnes 8 from rfl,
          BitVec.getLsbD_allOnes]
        simpa using inByte
      simp [inByte, bit, small, full]
    | false => simp [inByte, bit]
  · rename_i elsewhere
    rw [if_neg]
    intro isInside
    have := low offset isInside
    omega

/-- The bytes with an offset from `start` up to `stop` are new. -/
def overwrite (before : Inferior n) (a : BitVec n) (start stop : Nat) (byte : Nat → BitVec 8) :
    Inferior n :=
  { before with
    memory := fun b => if start ≤ (b - a).toNat ∧
    (b - a).toNat < stop then byte (b - a).toNat else before.memory b }

theorem Inferior.ext_memory (before : Inferior n) {m m' : BitVec n → BitVec 8} (same : ∀ b, m b = m' b) :
    ({ before with memory := m } : Inferior n) = { before with memory := m' } := by
  rw [funext same]

theorem overwrite_nothing (before : Inferior n) (a : BitVec n) (start : Nat) (byte : Nat → BitVec 8) :
    overwrite before a start start byte = before :=
  Inferior.ext_memory before fun b => if_neg (by omega)

@[simp] theorem accessible_overwrite {start stop : Nat} {byte : Nat → BitVec 8} :
    accessible (overwrite before a start stop byte) b = accessible before b := rfl

private theorem whole_of_server (server : n = 32 ∨ n = 64) : 8 ∣ n ∧ 4 ≤ n / 8 ∧ 2 ^ 32 ≤ 2 ^ n := by
  rcases server with rfl | rfl <;> decide

/-- One word is written if its `unsigned long` can be accessed. -/
theorem shiftWord_spec (server : n = 32 ∨ n = 64) (before : Inferior n) (a : BitVec n)
    (data : Nat → BitVec 8) (shift : Int)
    (start stop : Nat) (small : stop ≤ 4) :
    memWriteShiftWord before a data shift start stop =
      if accessible before a then
        (stop - start, overwrite before a start stop fun offset => data (shift + offset).toNat)
      else (0, before) := by
  obtain ⟨whole, room, -⟩ := whole_of_server server
  simp only [memWriteShiftWord, memWriteMaskedWord, ptraceMemRead, ptraceMemWrite]
  by_cases access : accessible before a = true
  · simp only [access, ↓reduceIte, Option.bind_eq_bind, Option.bind_some, Prod.mk.injEq, true_and]
    refine Inferior.ext_memory before fun b => ?_
    have byte := masked_byte whole before.memory (a := a) (b :=
      b) (fun offset => decide (start ≤ offset) && decide (offset < stop))
      (fun offset => data (shift + offset).toNat) (fun offset inside => by
        simp only [Bool.and_eq_true, decide_eq_true_eq] at inside
        omega) room
    refine byte.trans ?_
    simp only [Bool.and_eq_true, decide_eq_true_eq]
  · simp only [access, Bool.false_eq_true, ↓reduceIte, Option.bind_eq_bind, Option.bind_none]

/-! ## The loop -/

/-- Offsets from a place that is `k` bytes further. -/
private theorem offset_further (a b : BitVec n) {k : Nat} (small : k < 2 ^ n) :
    (b - (a + BitVec.ofNat n k)).toNat =
      if k ≤ (b - a).toNat then (b - a).toNat - k else (b - a).toNat + (2 ^ n - k) := by
  have shift : b - (a + BitVec.ofNat n k) = b - a - BitVec.ofNat n k := by
    rw [BitVec.sub_eq_add_neg, BitVec.neg_add,
      BitVec.sub_eq_add_neg (-a), ← BitVec.add_assoc, ← BitVec.sub_eq_add_neg b,
      ← BitVec.sub_eq_add_neg]
  have bound := (b - a).isLt
  rw [shift, BitVec.toNat_sub, BitVec.toNat_ofNat, Nat.mod_eq_of_lt small]
  split
  · have wraps : 2 ^ n - k + (b - a).toNat = (b - a).toNat - k + 2 ^ n := by omega
    rw [wraps, Nat.add_mod_right, Nat.mod_eq_of_lt (by omega)]
  · rw [Nat.mod_eq_of_lt (by omega), Nat.add_comm]

/-- Two stretches, one word after the other. -/
private theorem overwrite_overwrite (server : n = 32 ∨ n = 64) (before : Inferior n) (a : BitVec n)
    (data : Nat → BitVec 8)
    (shift : Int) {start k : Nat} (small : start ≤ 4) (bound : k + 4 < 2 ^ 32) :
    overwrite (overwrite before a start 4 fun offset => data (shift + offset).toNat) (a + 4) 0 k
        (fun offset => data (shift + 4 + offset).toNat) =
      overwrite before a start (4 + k) fun offset => data (shift + offset).toNat := by
  obtain ⟨-, -, large⟩ := whole_of_server server
  refine Inferior.ext_memory before fun b => ?_
  have next : (b - (a + 4)).toNat = _ := offset_further a b (k := 4) (by omega)
  simp only [overwrite, next]
  by_cases later : 4 ≤ (b - a).toNat
  · simp only [later, ↓reduceIte]
    have index : shift + 4 + (((b - a).toNat - 4 : Nat) : Int) = shift + ((b - a).toNat : Int) :=
      by omega
    by_cases inside : (b - a).toNat < 4 + k
    · rw [if_pos (by omega), if_pos (by omega), index]
    · rw [if_neg (by omega), if_neg (by omega), if_neg (by omega)]
  · simp only [later, ↓reduceIte]
    rw [if_neg (by omega)]
    by_cases inside : start ≤ (b - a).toNat
    · rw [if_pos (by omega), if_pos (by omega)]
    · rw [if_neg (by omega), if_neg (by omega)]

/-- The loop writes a first part of the bytes, and all of them if and only if
every word can be accessed as an `unsigned long`. -/
theorem shift_spec (server : n = 32 ∨ n = 64) (before : Inferior n) (a : BitVec n)
    (data : Nat → BitVec 8) (shift : Int)
    (start stop : Nat) (small : start < 4) (some : start < stop) (bound : stop < 2 ^ 32) :
    ∃ k ≤ stop - start, memWriteShift before a data shift start stop =
        (k, overwrite before a start (start + k) fun offset => data (shift + offset).toNat) ∧
      (0 < k → ∀ j, 4 * j < start + k → accessible before (a + BitVec.ofNat n (4 * j)) = true) ∧
      (k = stop - start ↔ ∀ j, 4 * j < stop →
        accessible before (a + BitVec.ofNat n (4 * j)) = true) := by
  induction stop using Nat.strongRecOn generalizing before a shift start with
  | ind stop ih =>
    have first := shiftWord_spec server before a data shift start (if 4 ≤ stop then 4 else stop)
      (by split <;> omega)
    rw [memWriteShift, first]
    by_cases access : accessible before a = true
    · simp only [access, ↓reduceIte, Bool.or_eq_true, decide_eq_true_eq]
      by_cases last : stop ≤ 4
      · have whole : (if 4 ≤ stop then 4 else stop) = stop := by split <;> omega
        rw [if_pos (.inr last), whole]
        have only : ∀ j, 4 * j < stop → accessible before (a + BitVec.ofNat n (4 * j)) = true := by
          intro j inside
          have zero : j = 0 := by omega
          rw [zero]
          simpa using access
        refine ⟨stop - start, Nat.le_refl _, ?_, fun _ j inside => only j (by omega),
          iff_of_true rfl only⟩
        rw [Nat.add_sub_cancel' (Nat.le_of_lt some)]
      · have four : (if 4 ≤ stop then 4 else stop) = 4 := if_pos (by omega)
        rw [four, if_neg (by omega)]
        obtain ⟨k, upTo, ran, part, all⟩ := ih (stop - 4) (by omega)
          (overwrite before a start 4 fun offset => data (shift + offset).toNat) (a + 4) (shift + 4)
            0 (by omega) (by omega)
          (by omega)
        have shifted : ∀ j, a + 4 + BitVec.ofNat n (4 * j) = a + BitVec.ofNat n (4 * (j + 1)) := by
          intro j
          rw [Nat.mul_add, Nat.add_comm, BitVec.ofNat_add, ← BitVec.add_assoc]
          rfl
        simp only [accessible_overwrite, shifted] at part all
        refine ⟨4 - start + k, by omega, ?_, fun _ j inside => ?_, ?_⟩
        · rw [ran, Nat.zero_add,
            overwrite_overwrite server before a data shift (Nat.le_of_lt small) (by omega)]
          simp only [Prod.mk.injEq, true_and]
          congr 1
          omega
        · cases j with
          | zero => simpa using access
          | succ j => exact part (by omega) j (by omega)
        · have counts : 4 - start + k = stop - start ↔ k = stop - 4 - 0 := by omega
          rw [counts, all]
          constructor
          · intro later j inside
            cases j with
            | zero => simpa using access
            | succ j => exact later j (by omega)
          · intro every j inside
            exact every (j + 1) (by omega)
    · simp only [access, Bool.false_eq_true, ↓reduceIte, decide_true, Bool.true_or]
      refine ⟨0, Nat.zero_le _, ?_, fun some => absurd some (Nat.lt_irrefl 0),
        iff_of_false (by omega) fun every => access ?_⟩
      · rw [Nat.add_zero, overwrite_nothing]
      · simpa using every 0 (by omega)

/-! ## Words of the range -/

theorem wordOf_toNat (a : BitVec n) : (wordOf a).toNat = a.toNat / 4 * 4 := by
  have shifts : wordOf a = a >>> 2 <<< 2 := by
    apply BitVec.eq_of_getLsbD_eq
    intro i inside
    rw [wordOf, BitVec.getLsbD_and, BitVec.getLsbD_not, BitVec.getLsbD_shiftLeft,
      BitVec.getLsbD_ushiftRight]
    have three : (3#n).getLsbD i = decide (i < 2) := by
      rw [BitVec.getLsbD_ofNat]
      match i with
      | 0 => simp [inside]
      | 1 => simp [inside, show Nat.testBit 3 1 = true from rfl]
      | i + 2 => simp [Nat.testBit_succ]
    rw [three]
    by_cases low : i < 2
    · simp [low]
    · rw [Nat.add_sub_cancel' (Nat.not_lt.mp low)]
      simp [low, inside]
  rw [shifts, BitVec.toNat_shiftLeft, BitVec.toNat_ushiftRight, Nat.shiftLeft_eq,
    Nat.shiftRight_eq_div_pow, Nat.mod_eq_of_lt]
  have bound := a.isLt
  omega

/-- The word of a byte, counted from the word of the first byte. -/
theorem wordOf_add (server : n = 32 ∨ n = 64) (address : BitVec n) (i : Nat) :
    wordOf (address + BitVec.ofNat n i) =
      wordOf address + BitVec.ofNat n (4 * ((address.toNat % 4 + i) / 4)) := by
  have whole : 4 ∣ 2 ^ n := by rcases server with rfl | rfl <;> decide
  apply BitVec.eq_of_toNat_eq
  rw [wordOf_toNat, BitVec.toNat_add, BitVec.toNat_add, wordOf_toNat, BitVec.toNat_ofNat,
    BitVec.toNat_ofNat,
    Nat.add_mod_mod, Nat.add_mod_mod]
  obtain ⟨c, isC⟩ := whole
  have bound := address.isLt
  have positive : 0 < c := by omega
  rw [isC]
  have split : address.toNat + i = 4 * (address.toNat / 4 + (address.toNat % 4 + i) / 4) +
      (address.toNat % 4 + i) % 4 := by
    omega
  have words : address.toNat / 4 * 4 + 4 * ((address.toNat % 4 + i) / 4) =
      4 * (address.toNat / 4 + (address.toNat % 4 + i) / 4) := by omega
  rw [words, Nat.mul_mod_mul_left, split, Nat.mod_mul, Nat.mul_add_mod, Nat.mod_mod,
    Nat.mul_add_div (by decide)]
  have rest : (address.toNat % 4 + i) % 4 / 4 = 0 := by omega
  rw [rest, Nat.add_zero]
  omega

/-- Where the range starts in its first word. -/
theorem start_toNat (server : n = 32 ∨ n = 64) (address : BitVec n) :
    ((address - wordOf address).setWidth 32).toNat = address.toNat % 4 := by
  obtain ⟨-, -, large⟩ := whole_of_server server
  have le : wordOf address ≤ address := by
    rw [BitVec.le_def, wordOf_toNat]
    omega
  rw [BitVec.toNat_setWidth, BitVec.toNat_sub_of_le le, wordOf_toNat]
  omega

/-- Where the range stops, as an `unsigned int`. -/
theorem stop_toNat (server : n = 32 ∨ n = 64) (address size : BitVec n) :
    ((address + size - wordOf address).setWidth 32).toNat =
      (address.toNat % 4 + size.toNat) % 2 ^ 32 := by
  have whole : 2 ^ 32 ∣ 2 ^ n := by rcases server with rfl | rfl <;> decide
  have le : wordOf address ≤ address := by
    rw [BitVec.le_def, wordOf_toNat]
    omega
  have sum : address + size - wordOf address = address - wordOf address + size := by
    rw [BitVec.sub_eq_add_neg, BitVec.sub_eq_add_neg, BitVec.add_assoc, BitVec.add_assoc,
      BitVec.add_comm size]
  rw [sum, BitVec.toNat_setWidth, BitVec.toNat_add, Nat.mod_mod_of_dvd _ whole,
    BitVec.toNat_sub_of_le le, wordOf_toNat]
  congr 2
  omega

/-! ## The whole write -/

/-- Every word that the range touches is mapped. -/
def AllMapped (inferior : Inferior n) (address size : BitVec n) : Prop :=
  ∀ i < size.toNat, inferior.mapped (wordOf (address + BitVec.ofNat n i)) = true

/-- A write changes a first part of the range and nothing else, the whole range
when every word of it is mapped. -/
def WritesExactly (inferior : Inferior n) (address size : BitVec n) (data : Nat → BitVec 8) : Prop :=
  ∃ k ≤ size.toNat, memWrite inferior address size data = .ok (k, overwrite inferior address 0 k data) ∧
    (AllMapped inferior address size → k = size.toNat)

/-- The end of the range is counted rightly and, on a 64-bit server, behind a
range of mapped words another word is mapped. -/
def RoomBehind (inferior : Inferior n) (address size : BitVec n) : Prop :=
  let start := address.toNat % 4
  start < (start + size.toNat) % 2 ^ 32 ∧
    (AllMapped inferior address size → start + size.toNat < 2 ^ 32 ∧
      (n = 64 → inferior.mapped (wordOf (address + size - 1) + 4) = true))

/-- What counts from the first word, counted from the address. -/
private theorem overwrite_shift (server : n = 32 ∨ n = 64) (before : Inferior n)
    (address : BitVec n) (data : Nat → BitVec 8)
    {k : Nat} (bound : address.toNat % 4 + k < 2 ^ 32) :
    overwrite before (wordOf address) (address.toNat % 4) (address.toNat % 4 + k)
        (fun offset => data (-((address.toNat % 4 : Nat) : Int) + offset).toNat) =
      overwrite before address 0 k data := by
  obtain ⟨-, -, large⟩ := whole_of_server server
  have first : wordOf address + BitVec.ofNat n (address.toNat % 4) = address := by
    have bound := address.isLt
    apply BitVec.eq_of_toNat_eq
    rw [BitVec.toNat_add, wordOf_toNat, BitVec.toNat_ofNat, Nat.add_mod_mod, Nat.mod_eq_of_lt (by omega)]
    omega
  refine Inferior.ext_memory before fun b => ?_
  have further := offset_further (wordOf address) b (k := address.toNat % 4) (by omega)
  rw [first] at further
  simp only [further]
  by_cases later : address.toNat % 4 ≤ (b - wordOf address).toNat
  · simp only [later, ↓reduceIte, true_and, Nat.zero_le]
    have index : (-((address.toNat % 4 : Nat) : Int) + ((b - wordOf address).toNat : Int)).toNat =
        (b - wordOf address).toNat - address.toNat % 4 := by omega
    rw [index]
    by_cases inside : (b - wordOf address).toNat < address.toNat % 4 + k
    · rw [if_pos inside, if_pos (by omega)]
    · rw [if_neg inside, if_neg (by omega)]
  · simp only [later, ↓reduceIte, false_and, Nat.zero_le, true_and]
    rw [if_neg (by omega)]

/-- A word can be accessed on a 64-bit server when the next one is mapped, too. -/
theorem accessible_iff (server : n = 32 ∨ n = 64) :
    accessible before a = true ↔ before.mapped a = true ∧ (n = 64 → before.mapped (a + 4) = true) := by
  rcases server with rfl | rfl
  · simp [accessible]
  · simp [accessible, List.range_succ]

/-- The written bytes are there. -/
private theorem verified (server : n = 32 ∨ n = 64) (before : Inferior n) (address : BitVec n)
    (data : Nat → BitVec 8) {k : Nat}
    (bound : k ≤ 2 ^ 32)
    (written : 0 < k → ∀ j, 4 * j < address.toNat % 4 + k →
      accessible before (wordOf address + BitVec.ofNat n (4 * j)) = true) :
    memVerify (overwrite before address 0 k data) address k data = true := by
  obtain ⟨-, -, large⟩ := whole_of_server server
  refine List.all_eq_true.mpr fun i member => ?_
  have inside := List.mem_range.mp member
  have offset : (address + BitVec.ofNat n i - address).toNat = i := by
    rw [BitVec.add_comm, BitVec.add_sub_cancel, BitVec.toNat_ofNat, Nat.mod_eq_of_lt (by omega)]
  have word := ((accessible_iff server).mp (written (by omega) ((address.toNat % 4 + i) / 4)
    (by omega))).1
  rw [← wordOf_add server] at word
  simp only [overwrite, offset, word, Nat.zero_le, inside, and_self, ↓reduceIte, beq_self_eq_true,
    Bool.and_self]

/-- The word behind the last one of a range. -/
private theorem word_behind (server : n = 32 ∨ n = 64) (address size : BitVec n)
    (some : 0 < size.toNat) :
    wordOf (address + size - 1) + 4 =
      wordOf address + BitVec.ofNat n (4 * ((address.toNat % 4 + size.toNat - 1) / 4)) + 4 := by
  have last : address + size - 1 = address + BitVec.ofNat n (size.toNat - 1) := by
    have one : (1 : BitVec n).toNat = 1 := by rcases server with rfl | rfl <;> rfl
    have same : size - 1 = BitVec.ofNat n (size.toNat - 1) := by
      apply BitVec.eq_of_toNat_eq
      have bound := size.isLt
      rw [BitVec.toNat_sub_of_le (by rw [BitVec.le_def, one]; omega), one, BitVec.toNat_ofNat,
        Nat.mod_eq_of_lt (by omega)]
    rw [← same, BitVec.sub_eq_add_neg, BitVec.sub_eq_add_neg, BitVec.add_assoc]
  rw [last, wordOf_add server, Nat.add_sub_assoc (by omega)]

/-- When the range is counted rightly and mapped, the loop comes to its end if
and only if the word behind it is mapped, or the server has words of four bytes. -/
private theorem all_accessible_iff (server : n = 32 ∨ n = 64) (address size : BitVec n)
    (some : 0 < size.toNat)
    (mapped : AllMapped before address size) :
    (∀ j, 4 * j < address.toNat % 4 + size.toNat →
      accessible before (wordOf address + BitVec.ofNat n (4 * j)) = true) ↔
      (n = 64 → before.mapped (wordOf (address + size - 1) + 4) = true) := by
  have touched : ∀ j, 4 * j < address.toNat % 4 + size.toNat →
      before.mapped (wordOf address + BitVec.ofNat n (4 * j)) = true := by
    intro j inside
    have here := mapped (4 * j - address.toNat % 4) (by omega)
    have same : (address.toNat % 4 + (4 * j - address.toNat % 4)) / 4 = j := by omega
    rwa [wordOf_add server, same] at here
  have next : ∀ j, wordOf address + BitVec.ofNat n (4 * j) + 4 =
      wordOf address + BitVec.ofNat n (4 * (j + 1)) := by
    intro j
    rw [Nat.mul_add, BitVec.ofNat_add, ← BitVec.add_assoc]
    rfl
  rw [word_behind server address size some]
  constructor
  · intro every wide
    exact ((accessible_iff server).mp (every _ (by omega))).2 wide
  · intro behind j inside
    refine (accessible_iff server).mpr ⟨touched j inside, fun wide => ?_⟩
    rw [next]
    by_cases more : 4 * (j + 1) < address.toNat % 4 + size.toNat
    · exact touched (j + 1) more
    · have last : (address.toNat % 4 + size.toNat - 1) / 4 = j := by omega
      rw [← next, ← last]
      exact behind wide

/-- A loop that comes to its end early has met a word that cannot be accessed. -/
private theorem shift_stops (server : n = 32 ∨ n = 64) (before : Inferior n) (a : BitVec n)
    (data : Nat → BitVec 8) (shift : Int)
    (start stop : Nat) (small : start < 4) (some : start < stop)
    (short : (memWriteShift before a data shift start stop).1 < stop - start) :
    ∃ j, 4 * j < stop ∧ 4 * j ≤ start + (memWriteShift before a data shift start stop).1 ∧
      accessible before (a + BitVec.ofNat n (4 * j)) = false := by
  induction stop using Nat.strongRecOn generalizing before a shift start with
  | ind stop ih =>
    have first := shiftWord_spec server before a data shift start (if 4 ≤ stop then 4 else stop)
      (by split <;> omega)
    rw [memWriteShift, first] at short ⊢
    by_cases access : accessible before a = true
    · simp only [access, ↓reduceIte, Bool.or_eq_true, decide_eq_true_eq] at short ⊢
      by_cases last : stop ≤ 4
      · rw [if_pos (.inr last)] at short
        split at short <;> simp only at short <;> omega
      · have four : (if 4 ≤ stop then 4 else stop) = 4 := if_pos (by omega)
        rw [four, if_neg (by omega)] at short ⊢
        obtain ⟨j, inside, upTo, closed⟩ := ih (stop - 4) (by omega)
          (overwrite before a start 4 fun offset => data (shift + offset).toNat) (a + 4) (shift + 4)
            0 (by omega) (by omega)
          (by simp only at short; omega)
        refine ⟨j + 1, by omega, by simp only; omega, ?_⟩
        rw [accessible_overwrite] at closed
        rw [Nat.mul_add, Nat.add_comm, BitVec.ofNat_add, ← BitVec.add_assoc]
        exact closed
    · exact ⟨0, by omega, by omega, by simpa using access⟩

/-- How many leading bytes of a range have words that can be accessed. -/
structure Reaches (inferior : Inferior n) (address : BitVec n) (size k : Nat) : Prop where
  upTo : k ≤ size
  inside : ∀ i < k, accessible inferior (wordOf (address + BitVec.ofNat n i)) = true
  stops : k < size → accessible inferior (wordOf (address + BitVec.ofNat n k)) = false

theorem Reaches.unique {inferior : Inferior n} {address : BitVec n} {size k l : Nat}
    (first : Reaches inferior address size k)
    (second : Reaches inferior address size l) : k = l := by
  rcases Nat.lt_trichotomy k l with less | same | more
  · have closed := first.stops (Nat.lt_of_lt_of_le less second.upTo)
    rw [second.inside k less] at closed
    cases closed
  · exact same
  · have closed := second.stops (Nat.lt_of_lt_of_le more first.upTo)
    rw [first.inside l more] at closed
    cases closed

/-- What a live thread's write comes to, in the bytes that it counts. -/
private theorem memWrite_counted (server : n = 32 ∨ n = 64) (live : before.dead = false)
    (address : BitVec n)
    {size : BitVec n} (some : size ≠ 0) (data : Nat → BitVec 8)
    (counted : address.toNat % 4 < (address.toNat % 4 + size.toNat) % 2 ^ 32) :
    ∃ k, Reaches before address ((address.toNat % 4 + size.toNat) % 2 ^ 32 - address.toNat % 4) k ∧
      memWrite before address size data = .ok (k, overwrite before address 0 k data) ∧
      (k = (address.toNat % 4 + size.toNat) % 2 ^ 32 - address.toNat % 4 ↔
        ∀ j, 4 * j < (address.toNat % 4 + size.toNat) % 2 ^ 32 →
          accessible before (wordOf address + BitVec.ofNat n (4 * j)) = true) := by
  have bound := Nat.mod_lt (address.toNat % 4 + size.toNat) (show 0 < 2 ^ 32 by decide)
  obtain ⟨k, upTo, ran, part, all⟩ := shift_spec server before (wordOf address) data
    (-((address.toNat % 4 : Nat) : Int)) (address.toNat % 4) ((address.toNat % 4 + size.toNat) % 2 ^ 32)
    (Nat.mod_lt _ (by decide)) counted bound
  have stops := shift_stops server before (wordOf address) data (-((address.toNat % 4 : Nat) : Int))
    (address.toNat % 4)
    ((address.toNat % 4 + size.toNat) % 2 ^ 32) (Nat.mod_lt _ (by decide)) counted
  rw [ran] at stops
  refine ⟨k, ⟨upTo, fun i inside => ?_, fun short => ?_⟩, ?_, all⟩
  · rw [wordOf_add server]
    exact part (by omega) _ (by omega)
  · obtain ⟨j, inside, low, closed⟩ := stops short
    have high : address.toNat % 4 + k ≤ 4 * j ∨ k = 0 := by
      rcases Nat.eq_zero_or_pos k with zero | positive
      · exact .inr zero
      · refine .inl (Nat.le_of_not_lt fun less => ?_)
        rw [part positive j less] at closed
        cases closed
    rw [wordOf_add server, show (address.toNat % 4 + k) / 4 = j by omega]
    exact closed
  · rw [overwrite_shift server before address data (by omega)] at ran
    simp only [memWrite, live, Bool.false_eq_true, ↓reduceIte, some, start_toNat server,
      stop_toNat server, counted, ran]
    rw [if_pos (verified server before address data (by omega) part)]

/-- What a live thread's write comes to. -/
theorem memWrite_live (server : n = 32 ∨ n = 64) (live : before.dead = false) (address : BitVec n)
    {size : BitVec n} (some : size ≠ 0) (data : Nat → BitVec 8)
    (counted : address.toNat % 4 < (address.toNat % 4 + size.toNat) % 2 ^ 32) :
    ∃ k ≤ (address.toNat % 4 + size.toNat) % 2 ^ 32 - address.toNat % 4,
      memWrite before address size data = .ok (k, overwrite before address 0 k data) ∧
      (k = (address.toNat % 4 + size.toNat) % 2 ^ 32 - address.toNat % 4 ↔
        ∀ j, 4 * j < (address.toNat % 4 + size.toNat) % 2 ^ 32 →
          accessible before (wordOf address + BitVec.ofNat n (4 * j)) = true) := by
  obtain ⟨k, reaches, ran, all⟩ := memWrite_counted server live address some data counted
  exact ⟨k, reaches.upTo, ran, all⟩

/-- A short write to a live thread changes the leading bytes that can be accessed. -/
theorem memWrite_short (server : n = 32 ∨ n = 64) (live : before.dead = false)
    (address : BitVec n) {size : Nat}
    (some : 0 < size) (short : size < 2 ^ 31) (data : Nat → BitVec 8) :
    ∃ k, Reaches before address size k ∧
      memWrite before address (BitVec.ofNat n size) data =
        .ok (k, overwrite before address 0 k data) := by
  obtain ⟨-, -, large⟩ := whole_of_server server
  have value : (BitVec.ofNat n size).toNat = size := by
    rw [BitVec.toNat_ofNat]
    exact Nat.mod_eq_of_lt (by omega)
  have nonzero : BitVec.ofNat n size ≠ 0 := by
    intro zero
    rw [zero] at value
    simp at value
    omega
  have whole : (address.toNat % 4 + size) % 2 ^ 32 = address.toNat % 4 + size :=
    Nat.mod_eq_of_lt (by omega)
  obtain ⟨k, reaches, ran, -⟩ :=
    memWrite_counted server live address nonzero data (by rw [value, whole]; omega)
  rw [value, whole, Nat.add_sub_cancel_left] at reaches
  exact ⟨k, reaches, ran⟩

/-- Where the offsets fall out of order, the write is an assertion that fails. -/
private theorem memWrite_disordered (server : n = 32 ∨ n = 64) (live : before.dead = false)
    {address size : BitVec n}
    (some : size ≠ 0) (data : Nat → BitVec 8)
    (disordered : ¬address.toNat % 4 < (address.toNat % 4 + size.toNat) % 2 ^ 32) :
    memWrite before address size data = .error .assertion := by
  simp only [memWrite, live, Bool.false_eq_true, ↓reduceIte, some, start_toNat server,
    stop_toNat server, disordered]

/-- Nothing is written of an empty range, and nothing to a dead thread. -/
private theorem writes_nothing {address size : BitVec n}
    (ran : memWrite before address size data = .ok (0, before))
    (unmapped : 0 < size.toNat → ∀ a, before.mapped a = false) :
    WritesExactly before address size data := by
  refine ⟨0, Nat.zero_le _, ?_, fun mapped => ?_⟩
  · rw [ran, overwrite_nothing]
  · by_contra more
    have touched := mapped 0 (by omega)
    rw [unmapped (by omega)] at touched
    exact Bool.false_ne_true touched

/-- To a dead thread, or of an empty range, nothing is written. -/
private theorem memWrite_idle {address size : BitVec n} (idle : before.dead = true ∨ size = 0)
    (data : Nat → BitVec 8) :
    memWrite before address size data = .ok (0, before) := by
  rcases idle with dead | empty
  · simp only [memWrite, dead, ↓reduceIte]
  · simp only [memWrite, empty, ↓reduceIte, ite_self]

/-- A write that ends has changed a first part of the range. -/
theorem memWrite_ran (server : n = 32 ∨ n = 64) {after : Inferior n} {address size : BitVec n} {k : Nat}
    (ran : memWrite before address size data = .ok (k, after)) :
    k ≤ size.toNat ∧ after = overwrite before address 0 k data := by
  by_cases idle : before.dead = true ∨ size = 0
  · cases (memWrite_idle idle data).symm.trans ran
    exact ⟨Nat.zero_le _, (overwrite_nothing before address 0 data).symm⟩
  · obtain ⟨live, some⟩ := not_or.mp idle
    have live : before.dead = false := Bool.not_eq_true _ ▸ live
    by_cases counted : address.toNat % 4 < (address.toNat % 4 + size.toNat) % 2 ^ 32
    · obtain ⟨k', upTo, ran', -⟩ := memWrite_live server live address some data counted
      cases ran'.symm.trans ran
      have below := Nat.mod_le (address.toNat % 4 + size.toNat) (2 ^ 32)
      exact ⟨by omega, rfl⟩
    · cases (memWrite_disordered server live some data counted).symm.trans ran

/-- Every `unsigned long` that starts at a word of the range can be accessed. -/
def Writable (inferior : Inferior n) (address size : BitVec n) : Prop :=
  ∀ i < size.toNat, accessible inferior (wordOf (address + BitVec.ofNat n i)) = true

/-- No write to the range gets further than one to a writable range. -/
theorem memWrite_reaches (server : n = 32 ∨ n = 64) {before' after after' : Inferior n}
    {address size : BitVec n}
    {data' : Nat → BitVec 8} {k k' : Nat} (ran : memWrite before address size data = .ok (k, after))
    (ran' : memWrite before' address size data' = .ok (k', after')) (live : before'.dead = false)
    (writable : Writable before' address size) : k ≤ k' := by
  by_cases idle : before.dead = true ∨ size = 0
  · cases (memWrite_idle idle data).symm.trans ran
    exact Nat.zero_le _
  · obtain ⟨live₀, some⟩ := not_or.mp idle
    have live₀ : before.dead = false := Bool.not_eq_true _ ▸ live₀
    by_cases counted : address.toNat % 4 < (address.toNat % 4 + size.toNat) % 2 ^ 32
    · obtain ⟨l, upTo, ranLive, -⟩ := memWrite_live server live₀ address some data counted
      cases ranLive.symm.trans ran
      obtain ⟨l', -, ranLive', all⟩ := memWrite_live server live address some data' counted
      cases ranLive'.symm.trans ran'
      have below := Nat.mod_le (address.toNat % 4 + size.toNat) (2 ^ 32)
      have whole := all.mpr fun j inside => by
        have here := writable (4 * j - address.toNat % 4) (by omega)
        have same : (address.toNat % 4 + (4 * j - address.toNat % 4)) / 4 = j := by omega
        rwa [wordOf_add server, same] at here
      omega
    · cases (memWrite_disordered server live₀ some data counted).symm.trans ran

/-- A write is exact if and only if there is nothing to write, or the end of
the range is counted rightly and the word behind a mapped range is mapped where
the server needs it. -/
theorem writes_exactly_iff (server : n = 32 ∨ n = 64) (inferior : Inferior n) (address size : BitVec n)
    (data : Nat → BitVec 8) :
    WritesExactly inferior address size data ↔
      inferior.dead = true ∨ size = 0 ∨ RoomBehind inferior address size := by
  by_cases dead : inferior.dead = true
  · exact iff_of_true (writes_nothing (memWrite_idle (.inl dead) data) fun _ =>
      inferior.gone dead) (.inl dead)
  have live : inferior.dead = false := Bool.not_eq_true _ ▸ dead
  by_cases empty : size = 0
  · have zero : size.toNat = 0 := by rw [empty]; exact BitVec.toNat_zero
    exact iff_of_true (writes_nothing (memWrite_idle (.inr empty) data) fun some =>
      absurd some (by omega)) (.inr (.inl empty))
  have some : 0 < size.toNat := Nat.pos_of_ne_zero fun zero =>
    empty (BitVec.eq_of_toNat_eq (by simpa using zero))
  simp only [dead, empty, false_or, Bool.false_eq_true]
  by_cases counted : address.toNat % 4 < (address.toNat % 4 + size.toNat) % 2 ^ 32
  · obtain ⟨k, upTo, ran, all⟩ := memWrite_live server live address empty data counted
    have below := Nat.mod_le (address.toNat % 4 + size.toNat) (2 ^ 32)
    -- that the offset of the end fits says that it is the one that counts
    have fits : k = size.toNat → address.toNat % 4 + size.toNat < 2 ^ 32 := by
      intro whole
      have bound := Nat.mod_lt (address.toNat % 4 + size.toNat) (show 0 < 2 ^ 32 by decide)
      omega
    constructor
    · rintro ⟨k', -, ran', whole⟩
      have same : k = k' := congrArg Prod.fst (Except.ok.inj (ran.symm.trans ran'))
      refine ⟨counted, fun mapped => ?_⟩
      have isWhole : k = size.toNat := same.trans (whole mapped)
      have small := fits isWhole
      refine ⟨small, (all_accessible_iff server address size some mapped).mp ?_⟩
      rw [Nat.mod_eq_of_lt small] at all
      exact all.mp (by omega)
    · rintro ⟨-, room⟩
      refine ⟨k, by omega, ran, fun mapped => ?_⟩
      obtain ⟨small, behind⟩ := room mapped
      rw [Nat.mod_eq_of_lt small] at all
      have whole := all.mpr ((all_accessible_iff server address size some mapped).mpr behind)
      omega
  · refine iff_of_false (fun exactly => ?_) fun room => counted room.1
    obtain ⟨k, -, ran, -⟩ := exactly
    rw [memWrite_disordered server live empty data counted] at ran
    cases ran

/-- One page, at `0x1000`. -/
private def onePage (n : Nat) : Inferior n where
  memory _ := 0
  mapped address := 0x1000 ≤ address && address < 0x2000
  dead := false
  gone dead := Bool.noConfusion dead

/-- A 32-bit server writes the last bytes of the page. -/
theorem last_bytes_written : WritesExactly (onePage 32) 0x1ffd 3 fun _ => 7 :=
  (writes_exactly_iff (.inl rfl) (onePage 32) 0x1ffd 3 fun _ => 7).mpr
    (.inr (.inr ⟨by decide, fun _ => ⟨by decide, fun wide => absurd wide (by decide)⟩⟩))

/-- A 64-bit server cannot write the last word of the page. -/
theorem last_word_not_written :
    AllMapped (onePage 64) 0x1ffc 4 ∧ ¬WritesExactly (onePage 64) 0x1ffc 4 fun _ => 7 := by
  have mapped : AllMapped (onePage 64) 0x1ffc 4 := by
    show ∀ i < 4, _
    decide
  refine ⟨mapped, fun ⟨k', _, ran', whole⟩ => ?_⟩
  have live : (onePage 64).dead = false := rfl
  have some : (4 : BitVec 64) ≠ 0 := by decide
  obtain ⟨k, -, ran, all⟩ := memWrite_live (.inr rfl) live 0x1ffc some (fun _ => 7) (by decide)
  have same : k = k' := congrArg Prod.fst (Except.ok.inj (ran.symm.trans ran'))
  have first := all.mp (same.trans (whole mapped)) 0 (by decide)
  exact absurd first (by decide)

end Adbi.MemWriteProofs
