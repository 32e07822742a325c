import Adbi.DwexprProofs
import Adbi.Leb128

/-! A number is read back from its encoding whatever follows, no encoding of it is
shorter, and only a stream without a last byte is refused. The loops are compared with
the numbers as the DWARF standard defines them. -/
namespace Adbi.Leb128Proofs
open Adbi.Lib Adbi.Dwexpr Adbi.Leb128
open Adbi.CacheRanges (lebEncode slebEncode)
open Adbi.Dwarf (uleb128 sleb128)
open Adbi.DwexprProofs (leb_loop lor_sign)

/-! ## The encoder -/

private theorem group_sign : ∀ seven < 128, seven &&& 0x40 = 0 ↔ seven < 64 := by decide

private theorem group_more : ∀ seven < 128, seven ||| 0x80 = seven + 128 := by decide

/-- What a round of the loop does, in arithmetic. -/
private theorem encode_loop_eq (signed : Bool) (value : Int) (checked : ¬ (value < 0 ∧ ¬ signed)) :
    ∃ checked', encodeLoop signed value checked =
      if isLast signed (value % 128).toNat (value / 128) then [BitVec.ofNat 8 (value % 128).toNat]
      else BitVec.ofNat 8 ((value % 128).toNat + 128) :: encodeLoop signed (value / 128) checked' := by
  have small : (value % 128).toNat < 128 := by omega
  refine ⟨fun ⟨negative, unsigned⟩ => checked ⟨by omega, unsigned⟩, ?_⟩
  rw [encodeLoop]
  simp only [land_group, shift_group, group_more _ small]

/-- `SLEB.encode` works group by group. -/
theorem encode_loop_signed (value : Int) (checked : ¬ (value < 0 ∧ ¬ true)) :
    encodeLoop true value checked = slebEncode value := by
  fun_induction slebEncode value with
  | case1 value seven last =>
    obtain ⟨_, round⟩ := encode_loop_eq true value checked
    have group : seven = (value % 128).toNat := rfl
    have sign := group_sign seven (by omega)
    rw [round, if_pos]
    simp only [isLast, if_true, decide_eq_true_eq, ← group]
    omega
  | case2 value seven more ih =>
    obtain ⟨checked', round⟩ := encode_loop_eq true value checked
    have group : seven = (value % 128).toNat := rfl
    have sign := group_sign seven (by omega)
    rw [round, if_neg, ih]
    simp only [isLast, if_true, decide_eq_true_eq, ← group]
    omega

/-- `LEB.encode` works group by group. -/
theorem encode_loop_unsigned (value : Nat) (checked : ¬ ((value : Int) < 0 ∧ ¬ false)) :
    encodeLoop false value checked = lebEncode value := by
  fun_induction lebEncode value with
  | case1 value last =>
    obtain ⟨_, round⟩ := encode_loop_eq false value checked
    have seven : ((value : Int) % 128).toNat = value := by omega
    rw [round, if_pos, seven]
    simp only [isLast, Bool.false_eq_true, if_false, decide_eq_true_eq]
    omega
  | case2 value more ih =>
    obtain ⟨checked', round⟩ := encode_loop_eq false value checked
    have seven : ((value : Int) % 128).toNat = value % 128 := by omega
    rw [round, if_neg, seven]
    · exact congrArg _ (ih checked')
    · simp only [isLast, Bool.false_eq_true, if_false, decide_eq_true_eq]
      omega

/-! ## Numbers and their encodings -/

private theorem byte_toNat {n : Nat} (small : n < 256) : (BitVec.ofNat 8 n).toNat = n :=
  Nat.mod_eq_of_lt small

private theorem leb_encode_last {value : Nat} (last : value < 128) :
    lebEncode value = [BitVec.ofNat 8 value] := by
  rw [lebEncode, if_pos last]

private theorem leb_encode_more {value : Nat} (more : ¬ value < 128) :
    lebEncode value = BitVec.ofNat 8 (value % 128 + 128) :: lebEncode (value / 128) := by
  rw [lebEncode, if_neg more]

/-- The value is that of its lowest group alone. -/
private def Single (value : Int) : Prop :=
  (value / 128 = 0 ∧ (value % 128).toNat < 64) ∨ (value / 128 = -1 ∧ 64 ≤ (value % 128).toNat)

private theorem sleb_encode_last {value : Int} (last : Single value) :
    slebEncode value = [BitVec.ofNat 8 (value % 128).toNat] := by
  rw [slebEncode]
  exact if_pos last

private theorem sleb_encode_more {value : Int} (more : ¬ Single value) :
    slebEncode value = BitVec.ofNat 8 ((value % 128).toNat + 128) :: slebEncode (value / 128) := by
  rw [slebEncode]
  exact if_neg more

theorem leb_encode_length (value : Nat) : 1 ≤ (lebEncode value).length := by
  by_cases last : value < 128
  · simp [leb_encode_last last]
  · simp [leb_encode_more last]

theorem sleb_encode_length (value : Int) : 1 ≤ (slebEncode value).length := by
  by_cases last : Single value
  · simp [sleb_encode_last last]
  · simp [sleb_encode_more last]

/-- The number of an encoding, whatever follows it. -/
theorem uleb_encode (value : Nat) (rest : Bytes) :
    uleb128 (lebEncode value ++ rest) = some (value, (lebEncode value).length) := by
  fun_induction lebEncode value with
  | case1 value last =>
    have byte := byte_toNat (n := value) (by omega)
    rw [List.singleton_append, uleb128, byte, if_pos last]
    rfl
  | case2 value more ih =>
    have byte := byte_toNat (n := value % 128 + 128) (by omega)
    rw [List.cons_append, uleb128, byte, if_neg (by omega), ih]
    simp only [Option.map_some, List.length_cons, Option.some.injEq, Prod.mk.injEq, and_true]
    omega

theorem sleb_encode (value : Int) (rest : Bytes) :
    sleb128 (slebEncode value ++ rest) = some (value, (slebEncode value).length) := by
  fun_induction slebEncode value with
  | case1 value seven last =>
    have group : seven = (value % 128).toNat := rfl
    have byte := byte_toNat (n := seven) (by omega)
    rw [List.singleton_append, sleb128, byte]
    rcases last with ⟨none, low⟩ | ⟨sign, high⟩
    · rw [if_pos low]
      simp only [List.length_singleton, Option.some.injEq, Prod.mk.injEq, and_true]
      omega
    · rw [if_neg (by omega), if_pos (by omega)]
      simp only [List.length_singleton, Option.some.injEq, Prod.mk.injEq, and_true]
      omega
  | case2 value seven more ih =>
    have group : seven = (value % 128).toNat := rfl
    have byte := byte_toNat (n := seven + 128) (by omega)
    rw [List.cons_append, sleb128, byte, if_neg (by omega), if_neg (by omega), ih]
    simp only [Option.map_some, List.length_cons, Option.some.injEq, Prod.mk.injEq, and_true]
    omega

/-- No bytes of the same number are fewer, and only these are as few. -/
theorem uleb_shortest (other : Bytes) (value size : Nat) (read : uleb128 other = some (value, size)) :
    (lebEncode value).length ≤ size ∧
      ((lebEncode value).length = size → other = lebEncode value ++ other.drop size) := by
  induction other generalizing value size with
  | nil => exact absurd read (by simp [uleb128])
  | cons b rest ih =>
    have byte := b.isLt
    rw [uleb128] at read
    by_cases last : b.toNat < 128
    · rw [if_pos last] at read
      obtain ⟨rfl, rfl⟩ : b.toNat = value ∧ 1 = size := by simpa using read
      simp [leb_encode_last last]
    · rw [if_neg last] at read
      obtain ⟨⟨above, size'⟩, read', same⟩ := Option.map_eq_some_iff.mp read
      obtain ⟨rfl, rfl⟩ : b.toNat - 128 + 128 * above = value ∧ size' + 1 = size := by simpa using same
      obtain ⟨short, only⟩ := ih above size' read'
      have some := leb_encode_length above
      by_cases single : b.toNat - 128 + 128 * above < 128
      · rw [leb_encode_last single]
        simp only [List.length_singleton]
        exact ⟨by omega, fun tight => by omega⟩
      · have higher : (b.toNat - 128 + 128 * above) / 128 = above := by omega
        have lower : (b.toNat - 128 + 128 * above) % 128 + 128 = b.toNat := by omega
        rw [leb_encode_more single, higher, lower]
        refine ⟨by simp only [List.length_cons]; omega, fun tight => ?_⟩
        have rest := only (by simpa using tight)
        rw [List.drop_succ_cons, List.cons_append, ← rest]
        simp

theorem sleb_shortest (other : Bytes) (value : Int) (size : Nat)
    (read : sleb128 other = some (value, size)) :
    (slebEncode value).length ≤ size ∧
      ((slebEncode value).length = size → other = slebEncode value ++ other.drop size) := by
  induction other generalizing value size with
  | nil => exact absurd read (by simp [sleb128])
  | cons b rest ih =>
    have byte := b.isLt
    rw [sleb128] at read
    by_cases low : b.toNat < 64
    · rw [if_pos low] at read
      obtain ⟨rfl, rfl⟩ : (b.toNat : Int) = value ∧ 1 = size := by simpa using read
      have group : ((b.toNat : Int) % 128).toNat = b.toNat := by omega
      have single : Single (b.toNat : Int) := .inl (by omega)
      simp [sleb_encode_last single, group]
    rw [if_neg low] at read
    by_cases last : b.toNat < 128
    · rw [if_pos last] at read
      obtain ⟨rfl, rfl⟩ : (b.toNat : Int) - 128 = value ∧ 1 = size := by simpa using read
      have group : (((b.toNat : Int) - 128) % 128).toNat = b.toNat := by omega
      rw [sleb_encode_last (.inr (by omega)), group]
      simp
    · rw [if_neg last] at read
      obtain ⟨⟨above, size'⟩, read', same⟩ := Option.map_eq_some_iff.mp read
      obtain ⟨rfl, rfl⟩ : (b.toNat : Int) - 128 + 128 * above = value ∧ size' + 1 = size :=
        by simpa using same
      obtain ⟨short, only⟩ := ih above size' read'
      have some := sleb_encode_length above
      by_cases single : Single (b.toNat - 128 + 128 * above)
      · rw [sleb_encode_last single]
        simp only [List.length_singleton]
        exact ⟨by omega, fun tight => by omega⟩
      · have higher : ((b.toNat : Int) - 128 + 128 * above) / 128 = above := by omega
        have lower : (((b.toNat : Int) - 128 + 128 * above) % 128).toNat + 128 = b.toNat := by omega
        rw [sleb_encode_more single, higher, lower]
        refine ⟨by simp only [List.length_cons]; omega, fun tight => ?_⟩
        have rest := only (by simpa using tight)
        rw [List.drop_succ_cons, List.cons_append, ← rest]
        simp

/-- An unsigned number is missing where no byte is a last one. -/
theorem uleb_none_iff (stream : Bytes) : uleb128 stream = none ↔ ∀ b ∈ stream, b.msb = true := by
  induction stream with
  | nil => simp [uleb128]
  | cons b rest ih =>
    have msb := BitVec.msb_eq_decide b
    rw [uleb128, List.forall_mem_cons, ← ih]
    by_cases last : b.toNat < 128
    · have clear : b.msb ≠ true := by simpa [msb] using last
      simp [last, clear]
    · have more : b.msb = true := by simpa [msb] using last
      simp [last, more]

theorem uleb_within (stream : Bytes) (value size : Nat) (read : uleb128 stream = some (value, size)) :
    size ≤ stream.length := by
  induction stream generalizing value size with
  | nil => exact absurd read (by simp [uleb128])
  | cons b rest ih =>
    rw [uleb128] at read
    by_cases last : b.toNat < 128
    · rw [if_pos last] at read
      obtain ⟨_, rfl⟩ : b.toNat = value ∧ 1 = size := by simpa using read
      simp
    · rw [if_neg last] at read
      obtain ⟨⟨above, size'⟩, read', same⟩ := Option.map_eq_some_iff.mp read
      obtain ⟨_, rfl⟩ : b.toNat - 128 + 128 * above = value ∧ size' + 1 = size := by simpa using same
      have shorter := ih above size' read'
      simpa using shorter

/-! ## Both classes -/

/-- The number in front of a stream, with the bytes it takes. -/
def front (signed : Bool) (stream : Bytes) : Option (Int × Nat) :=
  if signed then sleb128 stream else (uleb128 stream).map fun (n, size) => (n, size)

/-- `decode` reads the number in front of the stream. -/
theorem decode_eq (signed : Bool) (stream : Bytes) :
    decode signed stream =
      match front signed stream with
      | some (n, size) => .ok (n, stream.drop size)
      | none => .error .valueError := by
  rw [decode]
  rcases leb_loop stream 0 0 (by simp) with
      ⟨uleb, sleb, failed⟩ | ⟨n, size, last, uleb, small, sleb, read⟩
  · cases signed <;> simp [front, uleb, sleb, failed]
  · cases signed with
    | false => simp [front, uleb, read]
    | true =>
      by_cases sign : last &&& 0x40#8 = 0#8
      · simp [front, sleb, read, sign]
      · have filled := lor_sign small
        simp [front, sleb, read, sign, filled]

theorem front_none_iff (signed : Bool) (stream : Bytes) : front signed stream = none ↔
    ∀ b ∈ stream, b.msb = true := by
  rw [← uleb_none_iff]
  cases signed with
  | false => simp [front]
  | true =>
    rcases leb_loop stream 0 0 (by simp) with ⟨uleb, sleb, _⟩ | ⟨n, size, last, uleb, _, sleb, _⟩
    · simp [front, uleb, sleb]
    · simp [front, uleb, sleb]

theorem front_encode {signed : Bool} {value : Int} (checked : ¬ (value < 0 ∧ ¬ signed)) (rest : Bytes) :
    front signed (encodeLoop signed value checked ++ rest) =
      some (value, (encodeLoop signed value checked).length) := by
  cases signed with
  | true =>
    rw [encode_loop_signed]
    exact sleb_encode value rest
  | false =>
    obtain ⟨n, rfl⟩ : ∃ n : Nat, value = n := ⟨value.toNat, by simp at checked; omega⟩
    rw [encode_loop_unsigned, front, uleb_encode]
    rfl

theorem front_shortest {signed : Bool} {value : Int} (checked : ¬ (value < 0 ∧ ¬ signed))
    {other : Bytes} {size : Nat}
    (read : front signed other = some (value, size)) :
    (encodeLoop signed value checked).length ≤ size ∧
      ((encodeLoop signed value checked).length = size →
        other = encodeLoop signed value checked ++ other.drop size) := by
  cases signed with
  | true =>
    rw [encode_loop_signed]
    exact sleb_shortest other value size read
  | false =>
    obtain ⟨⟨n, size'⟩, read', same⟩ := Option.map_eq_some_iff.mp read
    obtain ⟨rfl, rfl⟩ : (n : Int) = value ∧ size' = size := by simpa using same
    rw [encode_loop_unsigned]
    exact uleb_shortest other n size' read'

/-- The bytes of a number in front of a stream are there. -/
theorem front_within {signed : Bool} {stream : Bytes} {value : Int} {size : Nat}
    (read : front signed stream = some (value, size)) :
    size ≤ stream.length := by
  cases signed with
  | true =>
    have signed : sleb128 stream = some (value, size) := read
    rcases leb_loop stream 0 0 (by simp) with ⟨_, sleb, _⟩ | ⟨n, size', last, uleb, _, sleb, _⟩
    · simp [sleb] at signed
    · simp only [signed, Option.some.injEq, Prod.mk.injEq] at sleb
      exact sleb.2 ▸ uleb_within stream n size' uleb
  | false =>
    obtain ⟨⟨n, size'⟩, read', same⟩ := Option.map_eq_some_iff.mp read
    obtain ⟨_, rfl⟩ : (n : Int) = value ∧ size' = size := by simpa using same
    exact uleb_within stream n size' read'

/-- A number is read back from its encoding, with what follows left over. Its encoding
is the shortest one, and the only one of that length. The decoder fails just where the
stream has no last byte. -/
theorem codec_exact (signed : Bool) (value : Int) (encodable : signed = true ∨ 0 ≤ value) :
    (∃ bytes, encode signed value = .ok bytes ∧
      (∀ rest, decode signed (bytes ++ rest) = .ok (value, rest)) ∧
      ∀ other rest, decode signed other = .ok (value, rest) →
        bytes.length + rest.length ≤ other.length ∧
          (bytes.length + rest.length = other.length → other = bytes ++ rest)) ∧
    ∀ stream, decode signed stream = .error .valueError ↔ ∀ b ∈ stream, b.msb = true := by
  have checked : ¬ (value < 0 ∧ ¬ signed) := by
    intro bad
    rcases encodable with sign | positive
    · exact bad.2 sign
    · omega
  refine ⟨⟨encodeLoop signed value checked, dif_neg checked, fun rest => ?_, fun other rest read => ?_⟩,
    fun stream => ?_⟩
  · rw [decode_eq, front_encode checked rest]
    simp
  · rw [decode_eq] at read
    cases found : front signed other with
    | none => simp [found] at read
    | some number =>
      obtain ⟨n, size⟩ := number
      simp only [found, Except.ok.injEq, Prod.mk.injEq] at read
      obtain ⟨rfl, rfl⟩ := read
      obtain ⟨short, only⟩ := front_shortest checked found
      have within := front_within found
      rw [List.length_drop]
      exact ⟨by omega, fun tight => only (by omega)⟩
  · rw [decode_eq, ← front_none_iff signed]
    cases front signed stream <;> simp

/-- The greatest negative number that takes two bytes. -/
theorem codec_exact_negative :
    (∃ bytes, encode true (-65) = .ok bytes ∧ (∀ rest, decode true (bytes ++ rest) = .ok (-65, rest)) ∧
      ∀ other rest, decode true other = .ok (-65, rest) →
        bytes.length + rest.length ≤ other.length ∧
          (bytes.length + rest.length = other.length → other = bytes ++ rest)) ∧
    ∀ stream, decode true stream = .error .valueError ↔ ∀ b ∈ stream, b.msb = true :=
  codec_exact true (-65) (.inl rfl)

end Adbi.Leb128Proofs
