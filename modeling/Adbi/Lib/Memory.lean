import Adbi.Lib.Bytes
import Mathlib.Data.BitVec
import Mathlib.Tactic.Ring

/-! Stores into a memory of bytes and loads from it, the least significant byte
first. Addresses wrap around. -/
namespace Adbi.Lib

variable {n w v : Nat} {m m' : BitVec n → BitVec 8} {a b base x y : BitVec n}

def storeLE (m : BitVec n → BitVec 8) (a : BitVec n) (value : BitVec w) : BitVec n → BitVec 8 := fun b =>
  if (b - a).toNat < w / 8 then value.extractLsb' (8 * (b - a).toNat) 8 else m b

def loadLE (w : Nat) (m : BitVec n → BitVec 8) (a : BitVec n) : BitVec w :=
  ofLittleEndian w ((List.range (w / 8)).map fun i => m (a + BitVec.ofNat n i))

/-- A load depends on the bytes that it reads. -/
theorem loadLE_congr (same : ∀ i < w / 8, m (a + BitVec.ofNat n i) = m' (a + BitVec.ofNat n i)) :
    loadLE w m a = loadLE w m' a := by
  unfold loadLE
  rw [List.map_congr_left fun i inside => same i (List.mem_range.mp inside)]

theorem getLsbD_loadLE (whole : 8 ∣ w) (i : Nat) (inside : i < w) :
    (loadLE w m a).getLsbD i = (m (a + BitVec.ofNat n (i / 8))).getLsbD (i % 8) := by
  have here : i / 8 < w / 8 := Nat.div_lt_div_of_lt_of_dvd whole inside
  rw [loadLE, getLsbD_ofLittleEndian _ i inside]
  simp [List.getD_eq_getElem?_getD, here]

/-- A load in two parts, the second of which is the higher one. -/
theorem loadLE_append (whole : 8 ∣ w) (whole' : 8 ∣ v) :
    loadLE (v + w) m a = loadLE v m (a + BitVec.ofNat n (w / 8)) ++ loadLE w m a := by
  apply BitVec.eq_of_getLsbD_eq
  intro i inside
  rw [getLsbD_loadLE (Nat.dvd_add whole' whole) i inside, BitVec.getLsbD_append]
  by_cases low : i < w
  · rw [if_pos low, getLsbD_loadLE whole i low]
  · obtain ⟨c, rfl⟩ := whole
    rw [if_neg low, getLsbD_loadLE whole' _ (by omega), BitVec.add_assoc, ← BitVec.ofNat_add]
    have byte : i / 8 = 8 * c / 8 + (i - 8 * c) / 8 := by omega
    have bit : i % 8 = (i - 8 * c) % 8 := by omega
    rw [← byte, ← bit]

theorem loadLE_storeLE (whole : 8 ∣ w) (fits : w / 8 ≤ 2 ^ n) (value : BitVec w) :
    loadLE w (storeLE m a value) a = value := by
  have bytes : ((List.range (w / 8)).map fun i => storeLE m a value (a + BitVec.ofNat n i)) =
      littleEndian value := by
    refine List.map_congr_left fun i inside => ?_
    have below := List.mem_range.mp inside
    have number : (a + BitVec.ofNat n i - a).toNat = i := by
      rw [BitVec.add_comm, BitVec.add_sub_cancel, BitVec.toNat_ofNat, Nat.mod_eq_of_lt (by omega)]
    rw [storeLE, number, if_pos below]
  rw [loadLE, bytes, ofLittleEndian_littleEndian value whole]

theorem storeLE_apart (apart : w / 8 ≤ (b - a).toNat) (value : BitVec w) :
    storeLE m a value b = m b := by
  rw [storeLE, if_neg (Nat.not_lt.mpr apart)]

/-- A load does not see a store whose bytes are others. -/
theorem loadLE_storeLE_apart (behind : v / 8 ≤ (b - a).toNat) (before : w / 8 ≤ (a - b).toNat)
    (value : BitVec v) :
    loadLE w (storeLE m a value) b = loadLE w m b := by
  refine loadLE_congr fun i inside => storeLE_apart ?_ value
  have shift : b + BitVec.ofNat n i - a = (b - a) + BitVec.ofNat n i := by
    rw [BitVec.sub_eq_add_neg, BitVec.sub_eq_add_neg, BitVec.add_assoc, BitVec.add_assoc,
      BitVec.add_comm (BitVec.ofNat n i)]
  have swap : a - b = -(b - a) := by rw [BitVec.neg_sub, BitVec.sub_eq_add_neg, BitVec.add_comm]
  have turn : (a - b).toNat = (2 ^ n - (b - a).toNat) % 2 ^ n := by rw [swap, BitVec.toNat_neg]
  have bound := (b - a).isLt
  have small : (a - b).toNat ≤ 2 ^ n - (b - a).toNat := turn ▸ Nat.mod_le _ _
  rw [shift, BitVec.toNat_add, BitVec.toNat_ofNat, Nat.mod_eq_of_lt (a := i) (by omega),
    Nat.mod_eq_of_lt (by omega)]
  omega

/-- The numbers at two places of a frame do not overlap. -/
def Apart (w : Nat) (x y : BitVec n) : Prop := w / 8 ≤ (x - y).toNat ∧ w / 8 ≤ (y - x).toNat

instance : Decidable (Apart w x y) := inferInstanceAs (Decidable (_ ∧ _))

/-- The same in a frame around `base`. -/
theorem loadLE_storeLE_frame (apart : Apart w x y) (value : BitVec w) :
    loadLE w (storeLE m (base + y) value) (base + x) = loadLE w m (base + x) := by
  have cancel (p q : BitVec n) : base + p - (base + q) = p - q := by
    rw [BitVec.sub_eq_add_neg, BitVec.neg_add, BitVec.sub_eq_add_neg, BitVec.add_comm base,
      BitVec.add_assoc, ← BitVec.add_assoc base,
      ← BitVec.sub_eq_add_neg base base, BitVec.sub_self, BitVec.zero_add, BitVec.sub_eq_add_neg]
  exact loadLE_storeLE_apart (by rw [cancel]; exact apart.1) (by rw [cancel]; exact apart.2) value

/-- A store below the stack pointer leaves what is not below it. -/
theorem storeLE_below (size : Nat) (fits : size ≤ base.toNat) (above : base ≤ b)
    (inside : (-y).toNat ≤ size ∧ w / 8 ≤ (-y).toNat) (value : BitVec w) :
    storeLE m (base + y) value b = m b := by
  refine storeLE_apart ?_ value
  have shift : b - (base + y) = (b - base) + -y := by
    rw [BitVec.sub_eq_add_neg, BitVec.neg_add,
      BitVec.sub_eq_add_neg, ← BitVec.add_assoc, ← BitVec.sub_eq_add_neg,
      BitVec.sub_eq_add_neg, BitVec.sub_eq_add_neg]
  have bound := b.isLt
  rw [BitVec.le_def] at above
  rw [shift, BitVec.toNat_add, BitVec.toNat_sub_of_le (by rwa [BitVec.le_def]),
    Nat.mod_eq_of_lt (by omega)]
  omega

/-! ## Frames -/

/-- Stores numbers one after the other, each at its place of the frame. -/
def storeFrame (m : BitVec n → BitVec 8) (base : BitVec n) (entries : List (BitVec n × BitVec w)) :
    BitVec n → BitVec 8 :=
  entries.foldl (fun m entry => storeLE m (base + entry.1) entry.2) m

variable {entries : List (BitVec n × BitVec w)} {value : BitVec w}

theorem storeFrame_unseen (apart : ∀ entry ∈ entries, Apart w x entry.1) :
    loadLE w (storeFrame m base entries) (base + x) = loadLE w m (base + x) := by
  induction entries generalizing m with
  | nil => rfl
  | cons entry rest ih =>
    have later := ih (m := storeLE m (base + entry.1) entry.2) fun e member =>
      apart e (List.mem_cons_of_mem _ member)
    exact later.trans (loadLE_storeLE_frame (apart entry List.mem_cons_self) entry.2)

/-- Every entry is read back. -/
theorem storeFrame_seen (whole : 8 ∣ w) (fits : w / 8 ≤ 2 ^ n)
    (apart : (entries.map Prod.fst).Pairwise fun x y => Apart w x y)
    (member : (x, value) ∈ entries) : loadLE w (storeFrame m base entries) (base + x) = value := by
  induction entries generalizing m with
  | nil => cases member
  | cons entry rest ih =>
    obtain ⟨first, others⟩ := List.pairwise_cons.mp apart
    rcases List.mem_cons.mp member with rfl | member
    · have unseen : loadLE w (storeFrame (storeLE m (base + x) value) base rest) (base + x) =
          loadLE w _ (base + x) :=
        storeFrame_unseen fun e member => first e.1 (List.mem_map_of_mem member)
      exact unseen.trans (loadLE_storeLE whole fits value)
    · exact ih others member

theorem storeFrame_below (size : Nat) (fits : size ≤ base.toNat) (above : base ≤ b)
    (inside : ∀ entry ∈ entries, (-entry.1).toNat ≤ size ∧ w / 8 ≤ (-entry.1).toNat) :
    storeFrame m base entries b = m b := by
  induction entries generalizing m with
  | nil => rfl
  | cons entry rest ih =>
    have later := ih (m := storeLE m (base + entry.1) entry.2) fun e member =>
      inside e (List.mem_cons_of_mem _ member)
    exact later.trans (storeLE_below size fits above (inside entry List.mem_cons_self) entry.2)

/-! ## Below a top -/

/-- Bytes counted from a place that is `l` below the top. -/
theorem offset_above (top : BitVec n) {k l j : Nat} (le : k ≤ l) (small : l - k + j < 2 ^ n) :
    (top - BitVec.ofNat n k + BitVec.ofNat n j - (top - BitVec.ofNat n l)).toNat = l - k + j := by
  have split : BitVec.ofNat n l = BitVec.ofNat n (l - k) + BitVec.ofNat n k := by
    rw [← BitVec.ofNat_add, Nat.sub_add_cancel le]
  have offset : top - BitVec.ofNat n k + BitVec.ofNat n j - (top - BitVec.ofNat n l) =
      BitVec.ofNat n (l - k + j) := by
    rw [split, BitVec.ofNat_add]
    ring
  rw [offset, BitVec.toNat_ofNat, Nat.mod_eq_of_lt small]

/-- A store further down leaves a number on the stack. -/
theorem loadLE_storeLE_above (top : BitVec n) {k l : Nat} (above : k + v / 8 ≤ l) (fits : l < 2 ^ n)
    (whole : w / 8 ≤ k)
    (value : BitVec v) :
    loadLE w (storeLE m (top - BitVec.ofNat n l) value) (top - BitVec.ofNat n k) =
      loadLE w m (top - BitVec.ofNat n k) := by
  refine loadLE_congr fun i inside => storeLE_apart ?_ value
  rw [offset_above top (by omega) (by omega)]
  omega

/-- What is outside the last `l` bytes is outside the last `k`. -/
theorem outside_mono (top : BitVec n) {k l : Nat} (le : k ≤ l) (fits : l < 2 ^ n)
    (outside : l ≤ (b - (top - BitVec.ofNat n l)).toNat) : k ≤ (b - (top - BitVec.ofNat n k)).toNat := by
  have split : BitVec.ofNat n l = BitVec.ofNat n (l - k) + BitVec.ofNat n k := by
    rw [← BitVec.ofNat_add, Nat.sub_add_cancel le]
  have shift : b - (top - BitVec.ofNat n k) = b - (top - BitVec.ofNat n l) - BitVec.ofNat n (l - k) := by
    rw [split]
    ring
  have number : (BitVec.ofNat n (l - k)).toNat = l - k :=
    by rw [BitVec.toNat_ofNat, Nat.mod_eq_of_lt (by omega)]
  rw [shift, BitVec.toNat_sub_of_le (by rw [BitVec.le_def, number]; omega), number]
  omega

/-- The two halves of a number that has been stored. -/
theorem loadLE_storeLE_append (whole : 8 ∣ w) (whole' : 8 ∣ v) (fits : (v + w) / 8 ≤ 2 ^ n)
    (high : BitVec v) (low : BitVec w) :
    loadLE w (storeLE m a (high ++ low)) a = low ∧
      loadLE v (storeLE m a (high ++ low)) (a + BitVec.ofNat n (w / 8)) = high := by
  have both : loadLE v (storeLE m a (high ++ low)) (a + BitVec.ofNat n (w / 8)) ++
      loadLE w (storeLE m a (high ++ low)) a =
      high ++ low := by
    rw [← loadLE_append whole whole', loadLE_storeLE (Nat.dvd_add whole' whole) fits]
  constructor
  · have part := congrArg (BitVec.extractLsb' 0 w) both
    rwa [BitVec.extractLsb'_append_eq_right, BitVec.extractLsb'_append_eq_right] at part
  · have part := congrArg (BitVec.extractLsb' w v) both
    rwa [BitVec.extractLsb'_append_eq_left, BitVec.extractLsb'_append_eq_left] at part

end Adbi.Lib
