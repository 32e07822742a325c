import Adbi.Branch
import Adbi.Trampoline

/-! Where the relative jumps lead that the servers write: on arm to the
destination that was asked for, and a destination that is refused is out of
reach. On arm64 the two Thumb encodings are interchanged, so that a 16-bit jump
is never right and a 32-bit one only in one window of 4 KiB. -/
namespace Adbi.BranchProofs
open Adbi.Lib Adbi.Branch

variable {n : Nat} {addr dest : BitVec n}

/-! ## Offsets of the architecture -/

private theorem append_range (x : BitVec (k + 1)) (s : Nat) :
    2 ^ s * -2 ^ k ≤ (x ++ 0#s).toInt ∧ (x ++ 0#s).toInt ≤ 2 ^ s * (2 ^ k - 1) := by
  have value : (x ++ 0#s).toInt = 2 ^ s * x.toInt := by simp [BitVec.toInt_append]
  have low := BitVec.le_toInt x
  have high := BitVec.toInt_lt (x := x)
  have weight : (0 : Int) ≤ 2 ^ s := Int.pow_nonneg (by decide)
  simp only [Nat.add_sub_cancel] at low high
  rw [value]
  exact ⟨Int.mul_le_mul_of_nonneg_left low weight, Int.mul_le_mul_of_nonneg_left (by omega) weight⟩

/-- How far an encoding reaches, to either side. -/
def reach : Encoding → Int × Int
  | .a64 => (-134217728, 134217724)
  | .a1 => (-33554432, 33554428)
  | .t2 => (-2048, 2046)
  | .t4 => (-16777216, 16777214)

theorem offset_range (insn : Word) (encoding : Encoding) :
    (reach encoding).1 ≤ encoding.offset insn ∧ encoding.offset insn ≤ (reach encoding).2 := by
  cases encoding with
  | a64 => exact append_range (field insn 0 26) 2
  | a1 => exact append_range (field insn 0 24) 2
  | t2 => exact append_range (field insn 0 11) 1
  | t4 =>
    exact append_range (k := 23) (field insn 26 1 ++ ~~~(field insn 13 1 ^^^ field insn 26 1) ++
      ~~~(field insn 11 1 ^^^ field insn 26 1) ++ field insn 16 10 ++ field insn 0 11) 1

/-! ## Encoding a jump -/

/-- A jump is stored from its lowest significant bit on. -/
private theorem stored (base : Word) (jump mask : BitVec n) (s k : Nat)
    (ones : mask = (BitVec.allOnes k).setWidth n)
    (wide : s + k ≤ n) : base ||| (jump.sshiftRight s &&& mask).setWidth 32 =
      base ||| ((field jump s k).setWidth 32 <<< 0) := by
  subst ones
  congr 1
  ext i h
  simp [field]
  grind

private theorem stored_offset (base : Word) (jump : BitVec n) (s k : Nat)
    (clear : field base 0 k = 0) (small : k ≤ 32)
    (positive : 0 < k) (wide : k + s ≤ n) (aligned : 2 ^ s ∣ jump.toNat)
    (low : -2 ^ (k + s - 1) ≤ jump.toInt)
    (high : jump.toInt < 2 ^ (k + s - 1)) :
    (field (base ||| ((field jump s k).setWidth 32 <<< 0)) 0 k ++ 0#s).toInt = jump.toInt := by
  rw [field_or, clear, field_shifted _ 0 (by omega), show (0 : BitVec k) = 0#k from rfl, BitVec.zero_or,
    field_append_zero jump s k aligned]
  exact toInt_setWidth_of_fits jump (by omega) wide low high

/-- The bits that `scatter` stores, each field at its place. -/
private theorem scatter_eq (base : Word) (jump : BitVec 32) :
    scatter base jump = base ||| ((field jump 24 1).setWidth 32 <<< 26) |||
      ((field jump 12 10).setWidth 32 <<< 16) |||
      ((~~~(field jump 23 1 ^^^ field jump 24 1)).setWidth 32 <<< 13) |||
      ((~~~(field jump 22 1 ^^^ field jump 24 1)).setWidth 32 <<< 11) |||
        ((field jump 1 11).setWidth 32 <<< 0) := by
  have imm10 : ((jump &&& 0x003ff000#32) <<< 4).setWidth 32 = (field jump 12 10).setWidth 32 <<< 16 := by
    rw [show 0x003ff000#32 = (BitVec.allOnes 10).setWidth 32 <<< 12 by decide, and_fieldMask]
    ext i h
    simp
  have imm11 : ((jump &&& 0xffe#32) >>> 1).setWidth 32 = (field jump 1 11).setWidth 32 <<< 0 := by
    rw [show 0xffe#32 = (BitVec.allOnes 11).setWidth 32 <<< 1 by decide, and_fieldMask]
    ext i h
    simp
    grind
  simp only [scatter, imm10, imm11, field_bit]

private theorem scatter_field {low k : Nat} (jump : BitVec 32)
    (clear : field 0xf0009000#32 low k = 0#k) :
    field (scatter 0xf0009000#32 jump) low k = field ((field jump 24 1).setWidth 32 <<< 26) low k |||
      field ((field jump 12 10).setWidth 32 <<< 16) low k |||
      field ((~~~(field jump 23 1 ^^^ field jump 24 1)).setWidth 32 <<< 13) low k |||
      field ((~~~(field jump 22 1 ^^^ field jump 24 1)).setWidth 32 <<< 11) low k |||
      field ((field jump 1 11).setWidth 32 <<< 0) low k := by
  rw [scatter_eq]
  simp only [field_or, clear, BitVec.zero_or]

/-- The bits `I1` and `I2` are recovered from `J1` and `J2`. -/
private theorem scatter_offset (jump : BitVec 32) (even : 2 ∣ jump.toNat) :
    Encoding.offsetT4 (scatter 0xf0009000#32 jump) = jump.setWidth 25 := by
  have s : field (scatter 0xf0009000#32 jump) 26 1 = field jump 24 1 := by
    simp (disch := decide) only [scatter_field, field_shifted, field_shifted_apart, BitVec.or_zero]
  have j1 : field (scatter 0xf0009000#32 jump) 13 1 = ~~~(field jump 23 1 ^^^ field jump 24 1) := by
    simp (disch := decide) only [scatter_field, field_shifted, field_shifted_apart, BitVec.or_zero,
      BitVec.zero_or]
  have j2 : field (scatter 0xf0009000#32 jump) 11 1 = ~~~(field jump 22 1 ^^^ field jump 24 1) := by
    simp (disch := decide) only [scatter_field, field_shifted, field_shifted_apart, BitVec.or_zero,
      BitVec.zero_or]
  have imm10 : field (scatter 0xf0009000#32 jump) 16 10 = field jump 12 10 := by
    simp (disch := decide) only [scatter_field, field_shifted, field_shifted_apart, BitVec.or_zero,
      BitVec.zero_or]
  have imm11 : field (scatter 0xf0009000#32 jump) 0 11 = field jump 1 11 := by
    simp (disch := decide) only [scatter_field, field_shifted, field_shifted_apart, BitVec.zero_or]
  have undo : ∀ a b : BitVec 1, ~~~(~~~(a ^^^ b) ^^^ b) = a := by decide
  have clear := getLsbD_of_dvd (s := 1) (i := 0) even (by decide)
  simp only [Encoding.offsetT4, s, j1, j2, imm10, imm11, undo]
  ext i h
  simp [field]
  grind

private theorem scatter_matches (jump : BitVec 32) :
    wordMatches (scatter 0xf0009000#32 jump) Encoding.t4.pattern = true := by
  rw [scatter_eq, matches_or_shifted _ _ 0 (by decide), matches_or_shifted _ _ 11 (by decide),
    matches_or_shifted _ _ 13 (by decide), matches_or_shifted _ _ 16 (by decide),
    matches_or_shifted _ _ 26 (by decide)]
  decide

/-- The word is a branch of the encoding whose offset is the jump. -/
private def Stores (encoding : Encoding) (jump : BitVec n) (insn : Word) : Prop :=
  wordMatches insn encoding.pattern = true ∧ encoding.offset insn = jump.toInt

private theorem a64_stores {jump : BitVec 64} (aligned : 2 ^ 2 ∣ jump.toNat)
    (low : (reach .a64).1 ≤ jump.toInt)
    (high : jump.toInt ≤ (reach .a64).2) :
    Stores .a64 jump (0x14000000#32 ||| (jump.sshiftRight 2 &&& 0x3ffffff#64).setWidth 32) := by
  simp only [reach] at low high
  rw [stored _ jump _ 2 26 (by decide) (by decide)]
  constructor
  · rw [matches_or_shifted _ _ 0 (by decide)]
    decide
  · exact stored_offset _ jump 2 26 (by decide) (by decide) (by decide) (by decide) aligned
      (by omega) (by omega)

private theorem a1_stores {jump : BitVec n} (mask : BitVec n) (wide : 26 ≤ n)
    (ones : mask = (BitVec.allOnes 24).setWidth n)
    (aligned : 2 ^ 2 ∣ jump.toNat) (low : (reach .a1).1 ≤ jump.toInt)
    (high : jump.toInt ≤ (reach .a1).2) :
    Stores .a1 jump (0xea000000#32 ||| (jump.sshiftRight 2 &&& mask).setWidth 32) := by
  simp only [reach] at low high
  rw [stored _ jump _ 2 24 ones (by omega)]
  constructor
  · rw [matches_or_shifted _ _ 0 (by decide)]
    decide
  · exact stored_offset _ jump 2 24 (by decide) (by decide) (by decide) (by omega) aligned
      (by omega) (by omega)

private theorem t2_stores {jump : BitVec 32} (aligned : 2 ^ 1 ∣ jump.toNat)
    (low : (reach .t2).1 ≤ jump.toInt)
    (high : jump.toInt ≤ (reach .t2).2) :
    Stores .t2 jump (0xe000#32 ||| (jump.sshiftRight 1 &&& 0x7ff#32).setWidth 32) := by
  simp only [reach] at low high
  rw [stored _ jump _ 1 11 (by decide) (by decide)]
  constructor
  · rw [matches_or_shifted _ _ 0 (by decide)]
    decide
  · exact stored_offset _ jump 1 11 (by decide) (by decide) (by decide) (by decide) aligned
      (by omega) (by omega)

private theorem t4_stores {jump : BitVec 32} (aligned : 2 ^ 1 ∣ jump.toNat)
    (low : (reach .t4).1 ≤ jump.toInt)
    (high : jump.toInt ≤ (reach .t4).2) : Stores .t4 jump (scatter 0xf0009000#32 jump) := by
  simp only [reach] at low high
  refine ⟨scatter_matches jump, ?_⟩
  show (Encoding.offsetT4 _).toInt = _
  rw [scatter_offset jump aligned]
  exact toInt_setWidth_of_fits jump (by decide) (by decide) (by omega) (by omega)

/-! ## Distances -/

private theorem dvd_of_and (x : BitVec n) (s : Nat) (small : s < n)
    (clear : x &&& ((1#n <<< s) - 1#n) = 0#n) :
    2 ^ s ∣ x.toNat := by
  rw [and_ones_below x s small] at clear
  have zero := congrArg BitVec.toNat clear
  have below : x.toNat % 2 ^ s < 2 ^ n :=
    Nat.lt_of_lt_of_le (Nat.mod_lt _ (Nat.two_pow_pos s)) (Nat.pow_le_pow_right (by decide) (by omega))
  simp [field, Nat.mod_eq_of_lt below] at zero
  exact Nat.dvd_of_mod_eq_zero zero

private theorem dvd_sub (s : Nat) (small : s ≤ n) {a b : BitVec n} (left : 2 ^ s ∣ a.toNat)
    (right : 2 ^ s ∣ b.toNat) :
    2 ^ s ∣ (a - b).toNat := by
  have whole : 2 ^ s ∣ 2 ^ n := Nat.pow_dvd_pow 2 small
  rw [BitVec.toNat_sub]
  refine (Nat.dvd_mod_iff whole).mpr ?_
  exact Nat.dvd_add (Nat.dvd_sub whole right) left

private theorem dvd_add (s : Nat) (small : s ≤ n) {a b : BitVec n} (left : 2 ^ s ∣ a.toNat)
    (right : 2 ^ s ∣ b.toNat) :
    2 ^ s ∣ (a + b).toNat := by
  have whole : 2 ^ s ∣ 2 ^ n := Nat.pow_dvd_pow 2 small
  rw [BitVec.toNat_add]
  exact (Nat.dvd_mod_iff whole).mpr (Nat.dvd_add left right)

/-- A jump between aligned addresses is aligned, also from a pc that runs ahead. -/
private theorem jump_aligned (s : Nat) (small : s < n) {addr dest ahead : BitVec n}
    (even : 2 ^ s ∣ ahead.toNat)
    (left : addr &&& ((1#n <<< s) - 1#n) = 0#n) (right : dest &&& ((1#n <<< s) - 1#n) = 0#n) :
    2 ^ s ∣ (dest - (addr + ahead)).toNat := by
  have pc := dvd_add s (by omega) (dvd_of_and addr s small left) even
  exact dvd_sub s (by omega) (dvd_of_and dest s small right) pc

/-- A destination at an integral distance from the pc that the sum does not wrap for. -/
private theorem sub_of_sum {pc dest : BitVec n} {offset : Int}
    (sum : (pc.toNat : Int) + offset = dest.toNat) :
    dest - pc = BitVec.ofInt n offset := by
  have ofSum : dest = pc + BitVec.ofInt n offset := by
    calc dest = BitVec.ofInt n dest.toNat := by simp
      _ = BitVec.ofInt n pc.toNat + BitVec.ofInt n offset := by rw [← sum, BitVec.ofInt_add]
      _ = pc + BitVec.ofInt n offset := by simp
  rw [ofSum, BitVec.add_comm, BitVec.add_sub_cancel]

private theorem distance_of_sum {pc dest : BitVec n} {offset : Int}
    (sum : (pc.toNat : Int) + offset = dest.toNat) :
    ((distance pc dest).toNat : Int) = offset.natAbs := by
  unfold distance
  have below := pc.isLt
  have below' := dest.isLt
  split
  · rename_i before
    rw [BitVec.lt_def] at before
    rw [BitVec.toNat_sub_of_le (by rw [BitVec.le_def]; omega)]
    omega
  · rename_i after
    rw [BitVec.lt_def] at after
    rw [BitVec.toNat_sub_of_le (by rw [BitVec.le_def]; omega)]
    omega

/-- Over a distance that a signed number can hold, the difference is the jump. -/
private theorem jump_toInt {pc dest : BitVec n} (near : (distance pc dest).toNat < 2 ^ (n - 1))
    (positive : 0 < n) :
    (dest - pc).toInt = dest.toNat - pc.toNat := by
  have sum : (pc.toNat : Int) + (dest.toNat - pc.toNat) = dest.toNat := by omega
  have width := distance_of_sum sum
  have twice : 2 ^ n = 2 * 2 ^ (n - 1) := by rw [← Nat.pow_succ', show (n - 1).succ = n by omega]
  rw [sub_of_sum sum, BitVec.toInt_ofInt]
  apply Int.bmod_eq_of_le <;> omega

private theorem in_range_iff (pc dest : BitVec n) (min max : Nat) (positive : 0 < n)
    (less : max ≤ min) (fits : min < 2 ^ (n - 1)) :
    Trampoline.inBranchRange min max pc.toNat dest.toNat = true ↔
      (distance pc dest).toNat ≤ min ∧ -(min : Int) ≤ (dest - pc).toInt ∧ (dest - pc).toInt ≤ max := by
  have width := distance_of_sum (show (pc.toNat : Int) + (dest.toNat - pc.toNat) = dest.toNat by omega)
  unfold Trampoline.inBranchRange
  constructor
  · intro ranged
    have near : (distance pc dest).toNat ≤ min := by
      split at ranged <;> simp at ranged <;> omega
    rw [jump_toInt (by omega) positive]
    split at ranged <;> simp at ranged <;> omega
  · rintro ⟨near, low, high⟩
    rw [jump_toInt (by omega) positive] at low high
    split <;> simp <;> omega

/-- A branch leads where its offset, cut to the width of the addresses, leads from the pc. -/
private theorem leads_of_stores {encoding : Encoding} {insn : Word} {pc : BitVec n}
    (start : addr + BitVec.ofNat n encoding.ahead = pc) (stores : Stores encoding (dest - pc) insn) :
    encoding.Leads insn addr dest := by
  refine ⟨stores.1, ?_⟩
  rw [stores.2, BitVec.ofInt_toInt, start, BitVec.add_comm, BitVec.sub_add_cancel]

/-! ## The arm server -/

section Arm
variable {kind : Arm.Kind} {addr dest : BitVec 32}

private theorem arm_aligned (addrAligned : Arm.checkAlign addr kind = true)
    (destAligned : Arm.checkAlign dest kind = true) :
    2 ^ (if kind = .arm then 2 else 1) ∣ (dest - Arm.addressToPc kind addr).toNat := by
  cases kind with
  | arm => exact jump_aligned 2 (by decide) (by decide) (eq_of_beq addrAligned) (eq_of_beq destAligned)
  | thumb | thumb2 =>
    exact jump_aligned 1 (by decide) (by decide) (eq_of_beq addrAligned) (eq_of_beq destAligned)

/-- What the check says: the range is that of the encoding, and the assertion of the encoder holds. -/
private theorem arm_check_iff : Arm.checkRelativeJumpKind kind addr dest = true ↔
    distance (Arm.addressToPc kind addr) dest ≤ 33554432#32 ∧
      (reach (Arm.encoding kind)).1 ≤ (dest - Arm.addressToPc kind addr).toInt ∧
      (dest - Arm.addressToPc kind addr).toInt ≤ (reach (Arm.encoding kind)).2 := by
  unfold Arm.checkRelativeJumpKind
  by_cases far : 33554432#32 < distance (Arm.addressToPc kind addr) dest
  · simp [far, BitVec.not_le.mpr far]
  · have near := BitVec.not_lt.mp far
    cases kind <;> simp [far, near, reach, Arm.encoding]

theorem arm_jump_leads (addrAligned : Arm.checkAlign addr kind = true)
    (destAligned : Arm.checkAlign dest kind = true)
    (reached : Arm.checkRelativeJumpKind kind addr dest = true) :
    ∃ insn, Arm.getRelativeJumpInsn kind addr dest = some insn ∧
    (Arm.encoding kind).Leads insn addr dest := by
  obtain ⟨near, low, high⟩ := arm_check_iff.mp reached
  have aligned := arm_aligned addrAligned destAligned
  unfold Arm.getRelativeJumpInsn
  simp only [near, ↓reduceIte]
  cases kind with
  | arm =>
    refine ⟨_, rfl, leads_of_stores rfl ?_⟩
    have stores := a1_stores 0xffffff#32 (by decide) (by decide) aligned low high
    rwa [BitVec.setWidth_eq] at stores
  | thumb =>
    refine ⟨_, rfl, leads_of_stores rfl ?_⟩
    have stores := t2_stores aligned low high
    rwa [BitVec.setWidth_eq] at stores
  | thumb2 => exact ⟨_, rfl, leads_of_stores rfl (t4_stores aligned low high)⟩

/-- Whatever an encoding reaches without a wrap-around, the check accepts. -/
theorem arm_check_of_spans {insn : Word} (spans : (Arm.encoding kind).Spans insn addr dest) :
    Arm.checkRelativeJumpKind kind addr dest = true := by
  obtain ⟨fits, sum⟩ := spans
  obtain ⟨low, high⟩ := offset_range insn (Arm.encoding kind)
  have ahead : (Arm.addressToPc kind addr).toNat = addr.toNat + (Arm.encoding kind).ahead := by
    cases kind <;> simp [Arm.addressToPc, Arm.encoding, Encoding.ahead] at fits ⊢ <;> omega
  have total : ((Arm.addressToPc kind addr).toNat : Int) + (Arm.encoding kind).offset insn =
      dest.toNat := by
    rw [ahead]
    push_cast
    exact sum
  have wide : -33554432 ≤ (reach (Arm.encoding kind)).1 ∧ (reach (Arm.encoding kind)).2 ≤ 33554432 := by
    cases kind <;> decide
  have jump : (dest - Arm.addressToPc kind addr).toInt = (Arm.encoding kind).offset insn := by
    rw [sub_of_sum total, BitVec.toInt_ofInt]
    exact Int.bmod_eq_of_le (by omega) (by omega)
  have near := distance_of_sum total
  rw [arm_check_iff, jump]
  refine ⟨?_, low, high⟩
  rw [BitVec.le_def]
  simp only [BitVec.toNat_ofNat]
  omega

/-- The check decides what can be encoded: a jump that it accepts leads to its
destination, and one that it refuses would have to wrap around. -/
theorem relative_jump_exact (kind : Arm.Kind) (addr dest : BitVec 32)
    (addrAligned : Arm.checkAlign addr kind = true)
    (destAligned : Arm.checkAlign dest kind = true) :
    (Arm.checkRelativeJumpKind kind addr dest = true →
      ∃ insn, Arm.getRelativeJumpInsn kind addr dest = some insn ∧
      (Arm.encoding kind).Leads insn addr dest) ∧
    (Arm.checkRelativeJumpKind kind addr dest = false →
      ∀ insn, ¬(Arm.encoding kind).Spans insn addr dest) := by
  refine ⟨arm_jump_leads addrAligned destAligned, fun refused insn spans => ?_⟩
  rw [arm_check_of_spans spans] at refused
  cases refused

/-- A Thumb jump of 16 MiB backwards, the farthest there is. -/
theorem far_thumb2_jump_exact : Arm.checkAlign 0x01010000#32 .thumb2 = true ∧
    Arm.checkAlign 0x00010004#32 .thumb2 = true ∧
    ((Arm.checkRelativeJumpKind .thumb2 0x01010000#32 0x00010004#32 = true →
        ∃ insn, Arm.getRelativeJumpInsn .thumb2 0x01010000#32 0x00010004#32 = some insn ∧
          (Arm.encoding .thumb2).Leads insn 0x01010000#32 0x00010004#32) ∧
      (Arm.checkRelativeJumpKind .thumb2 0x01010000#32 0x00010004#32 = false →
        ∀ insn, ¬(Arm.encoding .thumb2).Spans insn 0x01010000#32 0x00010004#32)) :=
  ⟨by decide, by decide, relative_jump_exact .thumb2 _ _ (by decide) (by decide)⟩

/-- The search for room for trampolines asks what `arm_check_relative_jump_kind` answers for A32. -/
theorem arm_machine_check {addr dest : Nat} (fits : dest < 2 ^ 32) :
    Trampoline.arm.checkRelativeJump addr dest =
      Arm.checkRelativeJumpKind .arm (BitVec.ofNat 32 addr) (BitVec.ofNat 32 dest) := by
  have start : (Arm.addressToPc .arm (BitVec.ofNat 32 addr)).toNat = (addr + 8) % 2 ^ 32 := by
    simp [Arm.addressToPc]
  have stop : (BitVec.ofNat 32 dest).toNat = dest := by simpa using fits
  have range := in_range_iff (Arm.addressToPc .arm (BitVec.ofNat 32 addr)) (BitVec.ofNat 32 dest)
    33554432 33554428 (by decide) (by decide) (by decide)
  rw [start, stop] at range
  rw [Bool.eq_iff_iff, arm_check_iff, BitVec.le_def]
  exact range

end Arm

/-! ## The arm64 server -/

section Arm64
variable {kind : Arm64.Kind} {addr dest : BitVec 64}

private theorem arm64_check_iff : Arm64.checkRelativeJumpKind kind addr dest = true ↔
    distance (Arm64.addressToPc addr kind) dest ≤ 134217728#64 ∧
      (reach (Arm64.encoding kind)).1 ≤ (dest - Arm64.addressToPc addr kind).toInt ∧
      (dest - Arm64.addressToPc addr kind).toInt ≤ (reach (Arm64.encoding kind)).2 := by
  unfold Arm64.checkRelativeJumpKind
  by_cases far : 134217728#64 < distance (Arm64.addressToPc addr kind) dest
  · simp [far, BitVec.not_le.mpr far]
  · have near := BitVec.not_lt.mp far
    cases kind <;> simp [far, near, reach, Arm64.encoding]

private theorem arm64_aligned (addrAligned : Arm64.checkAlign addr kind = true)
    (destAligned : Arm64.checkAlign dest kind = true) :
    2 ^ (if kind = .a64 ∨ kind = .a32 then 2 else 1) ∣ (dest - Arm64.addressToPc addr kind).toNat := by
  cases kind with
  | a64 =>
    have jump : 2 ^ 2 ∣ (dest - (addr + 0#64)).toNat :=
      jump_aligned 2 (by decide) (by decide) (eq_of_beq addrAligned) (eq_of_beq destAligned)
    rwa [BitVec.add_zero] at jump
  | a32 => exact jump_aligned 2 (by decide) (by decide) (eq_of_beq addrAligned) (eq_of_beq destAligned)
  | t32_16 | t32_32 =>
    exact jump_aligned 1 (by decide) (by decide) (eq_of_beq addrAligned) (eq_of_beq destAligned)

/-- The jump is encoded in the kind's own encoding, leads to its destination, and is an instruction
of that kind. -/
def Encoded (kind : Arm64.Kind) (addr dest : BitVec 64) : Prop :=
  ∃ insn, Arm64.getRelativeJumpInsn kind addr dest = some insn ∧
  (Arm64.encoding kind).Leads insn addr dest ∧
    Arm64.checkInsn insn kind = some kind

/-- The 32-bit Thumb jump stores eleven bits over a word whose offset is `0xc00000`. -/
private theorem wide_offset (jump : BitVec 64) :
    ((Encoding.offsetT4 (0xf0009000#32 ||| (jump.sshiftRight 1 &&& 0x7ff#64).setWidth 32)).toNat =
      0xc00000 + 2 * (jump.toNat / 2 % 2048)) := by
  have top : ∀ low k, low + k ≤ 32 → 11 ≤ low → 
      field (0xf0009000#32 ||| ((field jump 1 11).setWidth 32 <<< 0)) low k =
        field 0xf0009000#32 low k := by
    intro low k inside above
    rw [field_or, field_shifted_apart _ 0 low k (by omega), BitVec.or_zero]
  have bottom : field (0xf0009000#32 ||| ((field jump 1 11).setWidth 32 <<< 0)) 0 11 =
      field jump 1 11 := by
    rw [field_or, field_shifted _ 0 (by decide)]
    exact BitVec.zero_or
  have joined : ∀ f : BitVec 11, (0#1 ++ 1#1 ++ 1#1 ++ 0#10 ++ f ++ 0#1).toNat =
      0xc00000 + 2 * f.toNat := by
    intro f
    have small := f.isLt
    rw [BitVec.toNat_append, BitVec.toNat_append, ← Nat.shiftLeft_add_eq_or_of_lt
      small, ← Nat.shiftLeft_add_eq_or_of_lt (by decide)]
    simp [Nat.shiftLeft_eq]
    omega
  rw [stored _ jump _ 1 11 (by decide) (by decide)]
  have fields : Encoding.offsetT4 (0xf0009000#32 ||| ((field jump 1 11).setWidth 32 <<< 0)) =
      0#1 ++ 1#1 ++ 1#1 ++ 0#10 ++ field jump 1 11 ++ 0#1 := by
    simp only [Encoding.offsetT4, bottom, top 26 1 (by decide) (by decide),
      top 13 1 (by decide) (by decide), 
      top 11 1 (by decide) (by decide), top 16 10 (by decide) (by decide)]
    rfl
  rw [fields, joined]
  simp [field, Nat.shiftRight_eq_div_pow]

/-- The first halfword is that of the 32-bit branch. -/
private theorem wide_checked (f : BitVec 11) :
    Arm64.checkInsn (0xf0009000#32 ||| (f.setWidth 32 <<< 0)) .t32_32 = some .t32_32 := by
  have first : (0xf0009000#32 ||| (f.setWidth 32 <<< 0)) >>> 16 = 0xf000#32 := by
    rw [BitVec.ushiftRight_or_distrib]
    have clear : (f.setWidth 32 <<< 0) >>> 16 = 0#32 := by
      ext i h
      simp [BitVec.getLsbD_of_ge f (16 + i) (by omega)]
    rw [clear]
    decide
  have large : ¬(0xf0009000#32 ||| (f.setWidth 32 <<< 0)) < 0xe800#32 := by
    rw [BitVec.not_lt, BitVec.le_def, BitVec.toNat_or]
    exact Nat.le_trans (by decide) Nat.left_le_or
  simp only [Arm64.checkInsn, large, first, ↓reduceIte]
  decide

/-- The bits above the eleven that are stored make the jump one of 12 MiB. -/
private theorem wide_leads_iff (even : 2 ∣ (dest - (addr + 4)).toNat) :
    Encoding.t4.Leads (0xf0009000#32 ||| ((dest - (addr + 4)).sshiftRight 1 &&& 0x7ff#64).setWidth
      32) addr dest ↔
      0xc00000#64 ≤ dest - (addr + 4) ∧ dest - (addr + 4) < 0xc01000#64 := by
  have back : dest = addr + 4 + (dest - (addr + 4)) := by rw [BitVec.add_comm, BitVec.sub_add_cancel]
  have branch : wordMatches (0xf0009000#32 |||
      ((dest - (addr + 4)).sshiftRight 1 &&& 0x7ff#64).setWidth 32)
      Encoding.t4.pattern = true := by
    rw [stored _ _ _ 1 11 (by decide) (by decide), matches_or_shifted _ _ 0 (by decide)]
    decide
  have target := wide_offset (dest - (addr + 4))
  generalize dest - (addr + 4) = jump at *
  have bound := jump.isLt
  have offset : Encoding.t4.offset (0xf0009000#32 ||| (jump.sshiftRight 1 &&& 0x7ff#64).setWidth 32) =
      (0xc00000 + 2 * (jump.toNat / 2 % 2048) : Nat) := by
    show (Encoding.offsetT4 _).toInt = _
    rw [BitVec.toInt_eq_toNat_of_lt (by rw [target]; omega), target]
  have same : BitVec.ofInt 64 (0xc00000 + 2 * (jump.toNat / 2 % 2048) : Nat) = jump ↔
      0xc00000 + 2 * (jump.toNat / 2 % 2048) = jump.toNat := by
    rw [BitVec.ofInt_natCast, ← BitVec.toNat_inj, BitVec.toNat_ofNat, Nat.mod_eq_of_lt (by omega)]
  simp only [Encoding.Leads, branch, offset, true_and]
  rw [back]
  show addr + 4 + _ = addr + 4 + jump ↔ _
  rw [BitVec.add_right_inj, same, BitVec.le_def, BitVec.lt_def]
  simp only [BitVec.toNat_ofNat]
  omega

private theorem not_matches_of_bit {w : BitVec n} {p : Pattern} (i : Nat)
    (fixed : (BitVec.ofNat n p.mask).getLsbD i = true)
    (other : (BitVec.ofNat n p.value).getLsbD i ≠ w.getLsbD i) : wordMatches w p = false := by
  by_contra has
  rw [Bool.not_eq_false, wordMatches_iff] at has
  apply other
  rw [← has, BitVec.getLsbD_and, fixed, Bool.and_true]

/-- Sixteen bits of the fields of the 32-bit encoding are never a 16-bit branch. -/
private theorem narrow_not_branch (jump : BitVec 64) (low : -2048 ≤ jump.toInt)
    (high : jump.toInt ≤ 2046) :
    wordMatches (Arm64.t32_16Branch jump) Encoding.t2.pattern = false := by
  rw [BitVec.toInt_eq_toNat_cond] at low high
  by_cases negative : jump.getLsbD 24 = true
  · -- the sign is stored beyond the sixteen bits
    have stored : (Arm64.t32_16Branch jump).getLsbD 26 = true := by
      simp only [Arm64.t32_16Branch, scatter, BitVec.getLsbD_or, negative]
      simp
    refine not_matches_of_bit 26 (by decide) ?_
    rw [stored]
    decide
  · have clear : jump.getLsbD 22 = false := by
      simp only [BitVec.getLsbD, Nat.testBit_eq_decide_div_mod_eq, decide_eq_true_eq,
        decide_eq_false_iff_not] at negative ⊢
      have bound := jump.isLt
      omega
    -- `J2` is stored over an opcode bit
    have stored : (Arm64.t32_16Branch jump).getLsbD 11 = true := by
      simp only [Arm64.t32_16Branch, scatter, BitVec.getLsbD_or, negative, clear]
      simp
    refine not_matches_of_bit 11 (by decide) ?_
    rw [stored]
    decide

/-- The jumps that the arm64 server encodes correctly. -/
theorem relative_jump_encoded_iff (kind : Arm64.Kind) (addr dest : BitVec 64)
    (addrAligned : Arm64.checkAlign addr kind = true)
    (destAligned : Arm64.checkAlign dest kind = true)
    (reached : Arm64.checkRelativeJumpKind kind addr dest = true) :
    Encoded kind addr dest ↔
      kind = .a64 ∨ kind = .a32 ∨
        (kind = .t32_32 ∧ 0xc00000#64 ≤ dest - (addr + 4) ∧ dest - (addr + 4) < 0xc01000#64) := by
  obtain ⟨near, low, high⟩ := arm64_check_iff.mp reached
  have aligned := arm64_aligned addrAligned destAligned
  unfold Encoded Arm64.getRelativeJumpInsn
  simp only [near, ↓reduceIte]
  cases kind with
  | a64 =>
    have leads : (Arm64.encoding .a64).Leads _ addr dest :=
      leads_of_stores (BitVec.add_zero addr) (a64_stores aligned low high)
    exact ⟨fun _ => .inl rfl, fun _ => ⟨_, rfl, leads, rfl⟩⟩
  | a32 =>
    have leads : (Arm64.encoding .a32).Leads _ addr dest :=
      leads_of_stores rfl (a1_stores 0xffffff#64 (by decide) (by decide) aligned low high)
    exact ⟨fun _ => .inr (.inl rfl), fun _ => ⟨_, rfl, leads, rfl⟩⟩
  | t32_16 =>
    simp only [reach, Arm64.encoding] at low high
    have wrong := narrow_not_branch _ low high
    constructor
    · rintro ⟨insn, eq, leads, -⟩
      cases eq
      exact absurd leads.1 (by simp [Arm64.encoding, wrong])
    · rintro (no | no | ⟨no, -⟩) <;> cases no
  | t32_32 =>
    have checked := wide_checked (field (dest - (addr + 4)) 1 11)
    rw [← stored _ _ 0x7ff#64 1 11 (by decide) (by decide)] at checked
    constructor
    · rintro ⟨insn, eq, leads, -⟩
      cases eq
      exact .inr (.inr ⟨rfl, (wide_leads_iff aligned).mp leads⟩)
    · rintro (no | no | ⟨-, window⟩)
      · cases no
      · cases no
      · exact ⟨_, rfl, (wide_leads_iff aligned).mpr window, checked⟩

/-- The farthest jump backwards in A64 is encoded. -/
theorem far_a64_jump_encoded : Encoded .a64 0x10000000#64 0x08000000#64 :=
  (relative_jump_encoded_iff .a64 _ _ (by decide) (by decide) (by decide)).mpr (.inl rfl)

/-- A 32-bit Thumb jump over 256 bytes is accepted, and leads elsewhere. -/
theorem short_t32_jump_not_encoded : Arm64.checkAlign 0x8000#64 .t32_32 = true ∧
    Arm64.checkAlign 0x8100#64 .t32_32 = true ∧
    Arm64.checkRelativeJumpKind .t32_32 0x8000#64 0x8100#64 = true ∧
    ¬Encoded .t32_32 0x8000#64 0x8100#64 := by
  refine ⟨by decide, by decide, by decide, ?_⟩
  rintro ⟨insn, eq, leads, -⟩
  cases eq
  have window := (wide_leads_iff (by decide)).mp leads
  exact absurd window.1 (by decide)

/-- The search for room for trampolines asks what `arm64_check_relative_jump_kind` answers for A64. -/
theorem arm64_machine_check {addr dest : Nat} (addrFits : addr < 2 ^ 64) (destFits : dest < 2 ^ 64) :
    Trampoline.arm64.checkRelativeJump addr dest =
      Arm64.checkRelativeJumpKind .a64 (BitVec.ofNat 64 addr) (BitVec.ofNat 64 dest) := by
  have start : (BitVec.ofNat 64 addr).toNat = addr := by simpa using addrFits
  have stop : (BitVec.ofNat 64 dest).toNat = dest := by simpa using destFits
  have range := in_range_iff (BitVec.ofNat 64 addr) (BitVec.ofNat 64 dest) 134217728 134217724
    (by decide) (by decide) (by decide)
  rw [start, stop] at range
  rw [Bool.eq_iff_iff, arm64_check_iff, BitVec.le_def]
  exact range

end Arm64

end Adbi.BranchProofs
