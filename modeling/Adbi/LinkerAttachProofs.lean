import Adbi.LinkerAttach
import Adbi.MemWriteProofs
import Adbi.Lib.Runs

/-! Where the breakpoint in the linker is put, and what is left of it. The test of the
file name is the wrong way round, and a write may come to its end in the middle. -/
namespace Adbi.LinkerAttachProofs
open Adbi.Lib Adbi.LinkerAttach
open Adbi.Branch (Word isWideHalfword)
open Adbi.Fncall (Kind Fault checkAlign getBreakpointInsn memRead patchCheckInsn patchInsn
  patchReadInsn patchReadInsnDetectKind
  swapHalfwords)
open Adbi.MemWrite (Inferior accessible memWrite wordOf)
open Adbi.MemWriteProofs (Inferior.ext_memory Reaches memWrite_short overwrite)
open Adbi.Payload (CString)
open Adbi.Protocol (text)

variable {n : Nat} {inferior : Inferior n} {address : BitVec n} {kind : Kind} {insn : Word}

/-! ## Instructions in memory -/

/-- The bytes of an instruction. -/
def size (kind : Kind) : Nat := if kind = .t32_16 then 2 else 4

/-- The bytes that an instruction is stored as. -/
def stored (kind : Kind) (insn : Word) (i : Nat) : BitVec 8 :=
  (if kind = .t32_32 then swapHalfwords insn else insn).extractLsb' (8 * i) 8

/-- The instruction that is stored as some bytes. -/
def decoded (kind : Kind) (data : Nat → BitVec 8) : Word :=
  if kind = .t32_16 then (ofLittleEndian 16 [data 0, data 1]).setWidth 32
  else
    let insn := ofLittleEndian 32 [data 0, data 1, data 2, data 3]
    if kind = .t32_32 then swapHalfwords insn else insn

theorem getLsbD_swap (insn : Word) {i : Nat} (inside : i < 32) :
    (swapHalfwords insn).getLsbD i = insn.getLsbD (if i < 16 then i + 16 else i - 16) := by
  have mask (j : Nat) : (0xffff#32).getLsbD j = decide (j < 16) := by
    rw [show (0xffff#32) = BitVec.ofNat 32 (2 ^ 16 - 1) from rfl, BitVec.getLsbD_ofNat,
      Nat.testBit_two_pow_sub_one]
    by_cases low : j < 16
    · simp [low, show j < 32 by omega]
    · simp [low]
  rw [swapHalfwords, BitVec.getLsbD_or, BitVec.getLsbD_shiftLeft, BitVec.getLsbD_and,
    show (0xffff : BitVec 32) = 0xffff#32 from rfl, mask, BitVec.getLsbD_ushiftRight]
  by_cases low : i < 16
  · simp [low, Nat.add_comm]
  · simp only [low, inside, show i - 16 < 16 by omega, decide_true, decide_false, Bool.not_false,
      Bool.and_true,
      Bool.true_and, ↓reduceIte]
    rw [BitVec.getLsbD_of_ge insn (16 + i) (by omega), Bool.or_false]

theorem swap_swap (insn : Word) : swapHalfwords (swapHalfwords insn) = insn := by
  apply BitVec.eq_of_getLsbD_eq
  intro i inside
  rw [getLsbD_swap _ inside]
  by_cases low : i < 16
  · rw [if_pos low, getLsbD_swap _ (by omega), if_neg (by omega), Nat.add_sub_cancel]
  · rw [if_neg low, getLsbD_swap _ (by omega), if_pos (by omega), Nat.sub_add_cancel (Nat.not_lt.mp low)]

/-- The bytes that an instruction was read from are those it is stored as. -/
theorem stored_decoded (kind : Kind) (data : Nat → BitVec 8) {i : Nat} (inside : i < size kind) :
    stored kind (decoded kind data) i = data i := by
  have byte (l : Bytes) (room : 8 * i + 8 ≤ 32) : (ofLittleEndian 32 l).extractLsb' (8 * i) 8 =
      l.getD i 0 := by
    apply BitVec.eq_of_getLsbD_eq
    intro j inByte
    rw [BitVec.getLsbD_extractLsb', getLsbD_ofLittleEndian _ _ (by omega),
      show (8 * i + j) / 8 = i by omega,
      show (8 * i + j) % 8 = j by omega]
    simp [inByte]
  have word (l : Bytes) (four : l = [data 0, data 1, data 2, data 3]) (small : i < 4) :
      (ofLittleEndian 32 l).extractLsb' (8 * i) 8 = data i := by
    rw [byte l (by omega), four]
    match i, small with
    | 0, _ | 1, _ | 2, _ | 3, _ => rfl
  cases kind with
  | t32_16 =>
    have small : i < 2 := inside
    show ((ofLittleEndian 16 [data 0, data 1]).setWidth 32).extractLsb' (8 * i) 8 = data i
    apply BitVec.eq_of_getLsbD_eq
    intro j inByte
    rw [BitVec.getLsbD_extractLsb', BitVec.getLsbD_setWidth, getLsbD_ofLittleEndian _ _ (by omega),
      show (8 * i + j) / 8 = i by omega, show (8 * i + j) % 8 = j by omega]
    match i, small with
    | 0, _ | 1, _ => simp [inByte]; omega
  | t32_32 =>
    show (swapHalfwords (swapHalfwords _)).extractLsb' (8 * i) 8 = data i
    rw [swap_swap]
    exact word _ rfl inside
  | a32 => exact word _ rfl inside
  | a64 => exact word _ rfl inside

theorem breakpoint_valid (kind : Kind) : patchCheckInsn (getBreakpointInsn kind) kind = true := by
  cases kind <;> decide

/-- The first halfword of a wide instruction. -/
theorem first_halfword (a b c d : BitVec 8) :
    swapHalfwords (ofLittleEndian 32 [a, b, c, d]) >>> 16 = (ofLittleEndian 16 [a, b]).setWidth 32 := by
  apply BitVec.eq_of_getLsbD_eq
  intro i inside
  rw [BitVec.getLsbD_ushiftRight, BitVec.getLsbD_setWidth]
  by_cases low : i < 16
  · rw [getLsbD_swap _ (by omega), if_neg (by omega), Nat.add_sub_cancel_left,
      getLsbD_ofLittleEndian _ _ inside,
      getLsbD_ofLittleEndian _ _ low]
    rcases show i / 8 = 0 ∨ i / 8 = 1 by omega with byte | byte <;> simp [byte, inside]
  · rw [BitVec.getLsbD_of_ge _ (16 + i) (by omega), BitVec.getLsbD_of_ge _ i (by omega), Bool.and_false]

/-- What a read instruction is. -/
structure Read (inferior : Inferior n) (address : BitVec n) (kind : Kind) (insn : Word) : Prop where
  reads : patchReadInsn inferior address kind = .ok (some insn)
  aligned : checkAlign address kind = true
  valid : patchCheckInsn insn kind = true
  mapped : ∀ i < size kind, inferior.mapped (wordOf (address + BitVec.ofNat n i)) = true
  same : ∀ i < size kind, stored kind insn i = inferior.memory (address + BitVec.ofNat n i)

theorem memRead_some {count : Nat} {data : Nat → BitVec 8}
    (read : memRead inferior address count = some data) :
    (∀ i < count, inferior.mapped (wordOf (address + BitVec.ofNat n i)) = true) ∧
      data = fun i => inferior.memory (address + BitVec.ofNat n i) := by
  unfold memRead at read
  split at read
  · rename_i all
    cases read
    exact ⟨fun i inside => List.all_eq_true.mp all i (List.mem_range.mpr inside), rfl⟩
  · cases read

theorem patchReadInsn_some (read : patchReadInsn inferior address kind = .ok (some insn)) :
    checkAlign address kind = true ∧
    (∀ i < size kind, inferior.mapped (wordOf (address + BitVec.ofNat n i)) = true) ∧
      insn = decoded kind fun i => inferior.memory (address + BitVec.ofNat n i) := by
  unfold patchReadInsn at read
  split at read
  · rename_i aligned
    have value := Except.ok.inj read
    unfold size decoded
    split at value
    · rename_i narrow
      obtain ⟨data, bytes, rfl⟩ := Option.map_eq_some_iff.mp value
      obtain ⟨mapped, rfl⟩ := memRead_some bytes
      rw [if_pos narrow, if_pos narrow]
      exact ⟨aligned, mapped, rfl⟩
    · rename_i wide
      obtain ⟨data, bytes, rfl⟩ := Option.map_eq_some_iff.mp value
      obtain ⟨mapped, rfl⟩ := memRead_some bytes
      rw [if_neg wide, if_neg wide]
      exact ⟨aligned, mapped, rfl⟩
  · cases read

private theorem read_of_some (read : patchReadInsn inferior address kind = .ok (some insn))
    (valid : patchCheckInsn insn kind = true) : Read inferior address kind insn := by
  obtain ⟨aligned, mapped, rfl⟩ := patchReadInsn_some read
  exact ⟨read, aligned, valid, mapped, fun i inside => stored_decoded kind _ inside⟩

/-- An instruction whose kind was detected can be put back. -/
theorem detected_read {first : Kind}
    (read : patchReadInsnDetectKind inferior address first = .ok (some insn, kind)) :
    Read inferior address kind insn := by
  unfold patchReadInsnDetectKind at read
  split at read
  · rename_i arm
    obtain ⟨found, was, result⟩ := bind_ok read
    cases result
    exact read_of_some was (by rcases arm with rfl | rfl <;> rfl)
  · obtain ⟨found, was, result⟩ := bind_ok read
    cases found with
    | none => cases result
    | some halfword =>
      obtain ⟨-, -, isHalfword⟩ := patchReadInsn_some was
      simp only at result
      split at result
      · rename_i wide
        obtain ⟨found, whole, last⟩ := bind_ok result
        cases last
        refine read_of_some whole ?_
        obtain ⟨-, -, rfl⟩ := patchReadInsn_some whole
        rw [isHalfword] at wide
        show isWideHalfword (swapHalfwords _ >>> 16) = true
        rw [first_halfword]
        exact wide
      · cases result
        refine read_of_some was ?_
        rw [isHalfword]
        show ((ofLittleEndian 16 _).setWidth 32 &&& ~~~0xffff#32 == 0#32) = true
        rw [beq_iff_eq]
        apply BitVec.eq_of_getLsbD_eq
        intro i inside
        rw [BitVec.getLsbD_and, BitVec.getLsbD_setWidth, BitVec.getLsbD_not,
          show (0xffff#32) = BitVec.ofNat 32 (2 ^ 16 - 1) from rfl, BitVec.getLsbD_ofNat,
          Nat.testBit_two_pow_sub_one]
        by_cases low : i < 16
        · simp [low, inside]
        · simp [BitVec.getLsbD_of_ge _ i (Nat.not_lt.mp low)]

theorem patchReadInsn_ran (inferior : Inferior n) (aligned : checkAlign address kind = true) :
    ∃ found, patchReadInsn inferior address kind = .ok found := by
  rw [patchReadInsn, if_pos aligned]
  exact ⟨_, rfl⟩

theorem patchReadInsn_misaligned (misaligned : checkAlign address kind = false) :
    patchReadInsn inferior address kind = .error .assertion := by
  rw [patchReadInsn, misaligned]
  rfl

/-- At an aligned address an instruction is read or not. -/
theorem detect_ran (inferior : Inferior n) (aligned : checkAlign address kind = true) :
    ∃ found, patchReadInsnDetectKind inferior address kind = .ok found := by
  unfold patchReadInsnDetectKind
  split
  · obtain ⟨insn, read⟩ := patchReadInsn_ran inferior aligned
    rw [read]
    exact ⟨_, rfl⟩
  · rename_i thumb
    have even : checkAlign address .t32_16 = true := by
      cases kind with
      | a32 | a64 => simp at thumb
      | t32_16 | t32_32 => exact aligned
    obtain ⟨insn, read⟩ := patchReadInsn_ran inferior even
    obtain ⟨whole, both⟩ := patchReadInsn_ran inferior (show checkAlign address .t32_32 = true from even)
    rw [read, both]
    cases insn with
    | none => exact ⟨_, rfl⟩
    | some insn =>
      show ∃ found, (if isWideHalfword insn = true then _ else _) = _
      split
      · exact ⟨_, rfl⟩
      · exact ⟨_, rfl⟩

/-- At any other address the read is an assertion that fails. -/
theorem detect_misaligned (misaligned : checkAlign address kind = false) :
    patchReadInsnDetectKind inferior address kind = .error .assertion := by
  unfold patchReadInsnDetectKind
  split
  · rw [patchReadInsn_misaligned misaligned]
    rfl
  · rename_i thumb
    have odd : checkAlign address .t32_16 = false := by
      cases kind with
      | a32 | a64 => simp at thumb
      | t32_16 | t32_32 => exact misaligned
    rw [patchReadInsn_misaligned odd]
    rfl

/-- An instruction is written as far as its words can be accessed. -/
theorem patchInsn_reaches (server : n = 32 ∨ n = 64) (live : inferior.dead = false)
    (aligned : checkAlign address kind = true)
    (valid : patchCheckInsn insn kind = true) :
    ∃ k, Reaches inferior address (size kind) k ∧
      patchInsn inferior address kind insn =
        .ok (k == size kind, overwrite inferior address 0 k (stored kind insn)) := by
  have some : 0 < size kind := by cases kind <;> decide
  have short : size kind < 2 ^ 31 := by cases kind <;> decide
  obtain ⟨k, reaches, ran⟩ := memWrite_short server live address some short (stored kind insn)
  refine ⟨k, reaches, ?_⟩
  have ran : memWrite inferior address (BitVec.ofNat n (if kind = .t32_16 then 2 else 4))
      (fun i => (if kind = .t32_32 then swapHalfwords insn else insn).extractLsb' (8 * i) 8) =
      .ok (k, overwrite inferior address 0 k (stored kind insn)) := ran
  simp only [patchInsn, aligned, valid, Bool.and_self, ↓reduceIte, ran, size]

theorem overwrite_same {before : Inferior n} {k : Nat} {data : Nat → BitVec 8} (small : k ≤ 2 ^ n) :
    overwrite before address 0 k data = before ↔
    ∀ i < k, before.memory (address + BitVec.ofNat n i) = data i := by
  constructor
  · intro same i inside
    have here := congrFun (congrArg Inferior.memory same) (address + BitVec.ofNat n i)
    have offset : (address + BitVec.ofNat n i - address).toNat = i := by
      rw [BitVec.add_comm, BitVec.add_sub_cancel, BitVec.toNat_ofNat, Nat.mod_eq_of_lt (by omega)]
    rw [← here]
    simp only [overwrite, offset, Nat.zero_le, inside, and_self, ↓reduceIte]
  · intro same
    refine Inferior.ext_memory before fun b => ?_
    split
    · rename_i inside
      have back : address + BitVec.ofNat n (b - address).toNat = b := by
        rw [BitVec.ofNat_toNat, BitVec.setWidth_eq, BitVec.add_comm, BitVec.sub_add_cancel]
      rw [← same _ inside.2, back]
    · rfl

/-- Putting back what was there. -/
theorem overwrite_back {before : Inferior n} {k : Nat} {data back : Nat → BitVec 8}
    (was : ∀ i < k, back i = before.memory (address + BitVec.ofNat n i)) :
    overwrite (overwrite before address 0 k data) address 0 k back = before := by
  refine Inferior.ext_memory before fun b => ?_
  simp only [overwrite]
  split
  · rename_i inside
    have back : address + BitVec.ofNat n (b - address).toNat = b := by
      rw [BitVec.ofNat_toNat, BitVec.setWidth_eq, BitVec.add_comm, BitVec.sub_add_cancel]
    rw [was _ inside.2, back]
  · rfl

/-! ## Attaching -/

/-- The files of the dynamic linkers. -/
def linkers : List CString := [text "/system/bin/linker", text "/system/bin/linker64"]

/-- A breakpoint stands where `linker` says, in the code of a linker, and in its place
`linker` has the instruction that was there. -/
structure Installed (before after : Process n) : Prop where
  segment : ∃ segment filename, segmentGet before after.linker.bkpt = some segment ∧
    segment.start ≤ after.linker.bkpt ∧ after.linker.bkpt < segment.stop ∧
    segment.executable = true ∧ segment.filename = some filename ∧ filename ∈ linkers
  saved : patchReadInsn before.inferior after.linker.bkpt after.linker.kind =
      .ok (some after.linker.insn)
  written : after.inferior = overwrite before.inferior after.linker.bkpt 0 (size after.linker.kind)
    (stored after.linker.kind (getBreakpointInsn after.linker.kind))

/-- Attaching at a candidate ends with a breakpoint in the linker or with nothing
changed, and detaching then leaves the memory as it was. -/
def Placed (process : Process n) (address : BitVec n) : Prop :=
  ∃ after, linkerAttach process address = .ok after ∧
  (after.linker.bkpt ≠ 0#n → Installed process after) ∧
    (after.linker.bkpt = 0#n → after.inferior = process.inferior) ∧
    ∃ detached, linkerDetach after = .ok detached ∧ detached.linker.bkpt = 0#n ∧
    detached.inferior = process.inferior

/-- The candidate is taken for an address in the file. -/
structure Taken (process : Process n) (address : BitVec n) (segment : Segment n)
    (filename : CString) : Prop where
  some : address ≠ 0#n
  found : segmentGet process (address &&& ~~~1#n) = .some segment
  executable : segment.executable = true
  named : segment.filename = .some filename
  passes : isLinkerFilename filename = false

/-- Where the candidate is taken for one in a linker, it is aligned; and if the instruction is
read and the breakpoint written, then in a linker, and if it is written in part, then where
that part stands already. -/
def Proper (process : Process n) (address : BitVec n) : Prop :=
  let kind := detectKindFromUnalignedAddress process.mode32 address
  let bkpt := address &&& ~~~1#n
  ∀ segment filename, Taken process address segment filename →
    checkAlign bkpt kind = true ∧
    ∀ insn kind' k, patchReadInsnDetectKind process.inferior bkpt kind = .ok (some insn, kind') →
      Reaches process.inferior bkpt (size kind') k →
      if k = size kind' ∧ bkpt ≠ 0#n then filename ∈ linkers
      else ∀ i < k, process.inferior.memory (bkpt + BitVec.ofNat n i) =
        stored kind' (getBreakpointInsn kind') i

variable {process : Process n} {segment : Segment n} {filename : CString}

theorem segmentGet_some (found : segmentGet process address = some segment) :
    segment.start ≤ address ∧ address < segment.stop := by
  unfold segmentGet at found
  split at found
  · cases found
  · rename_i lowest
    split at found
    · cases found
    · rename_i below
      cases found
      obtain ⟨key, under, member, -⟩ := OrderedTree.getLe_eq_some_iff.mp lowest
      have start : key = segment.start.toNat := process.keyed _ member
      rw [start] at under member
      exact ⟨under, BitVec.not_le.mp below⟩

/-- Any other candidate is passed over. -/
theorem attach_passed (idle : process.linker.bkpt = 0#n)
    (passed : ∀ segment filename, ¬Taken process address segment filename) :
    ∃ after, linkerAttach process address = .ok after ∧ after.linker.bkpt = 0#n ∧
    after.inferior = process.inferior := by
  unfold linkerAttach
  rw [if_neg (not_not.mpr idle)]
  split
  · exact ⟨process, rfl, idle, rfl⟩
  · rename_i some
    simp only
    split
    · exact ⟨_, rfl, rfl, rfl⟩
    · rename_i segment found
      rw [if_pos]
      · exact ⟨_, rfl, rfl, rfl⟩
      · by_contra taken
        simp only [Bool.not_eq_true', Bool.not_eq_false, Bool.and_eq_true, Option.any_eq_true] at taken
        obtain ⟨executable, filename, named, passes⟩ := taken
        exact passed segment filename ⟨some, found, executable, named, by simpa using passes⟩

theorem attach_taken (idle : process.linker.bkpt = 0#n)
    (taken : Taken process address segment filename) :
    linkerAttach process address =
      patchReadInsnDetectKind process.inferior (address &&& ~~~1#n)
      (detectKindFromUnalignedAddress process.mode32 address) >>=
        fun found => match found with
          | (none, kind) => pure
            { process with linker := { process.linker with bkpt := 0#n, kind := kind } }
          | (some insn, kind) =>
            patchInsn process.inferior (address &&& ~~~1#n) kind (getBreakpointInsn kind) >>=
              fun (done, inferior) =>
              pure { process with
                inferior := inferior, linker :=
                ⟨if done then address &&& ~~~1#n else 0#n, insn, kind⟩ } := by
  unfold linkerAttach
  rw [if_neg (not_not.mpr idle), if_neg taken.some]
  simp only [taken.found]
  exact if_neg (by simp [taken.executable, taken.named, taken.passes])

theorem detach_nothing {after : Process n} (none : after.linker.bkpt = 0#n) :
    linkerDetach after = .ok after := by
  rw [linkerDetach, if_neg (not_not.mpr none)]

/-- Where an instruction is read, what comes of it depends on how much of the breakpoint is written. -/
theorem attach_read (server : n = 32 ∨ n = 64) (idle : process.linker.bkpt = 0#n)
    (taken : Taken process address segment filename)
    (read : patchReadInsnDetectKind process.inferior (address &&& ~~~1#n)
      (detectKindFromUnalignedAddress process.mode32 address) = .ok (some insn, kind)) :
    ∃ k, Reaches process.inferior (address &&& ~~~1#n) (size kind) k ∧
      linkerAttach process address = .ok { process with
        inferior := overwrite process.inferior (address &&& ~~~1#n) 0 k
          (stored kind (getBreakpointInsn kind))
        linker := ⟨if k == size kind then address &&& ~~~1#n else 0#n, insn, kind⟩ } := by
  have was := detected_read read
  have live : process.inferior.dead = false := by
    by_contra dead
    have first := was.mapped 0 (by cases kind <;> decide)
    rw [process.inferior.gone (by simpa using dead)] at first
    cases first
  obtain ⟨k, reaches, ran⟩ := patchInsn_reaches server live was.aligned (breakpoint_valid kind)
  refine ⟨k, reaches, ?_⟩
  rw [attach_taken idle taken, read]
  show (patchInsn process.inferior (address &&& ~~~1#n) kind (getBreakpointInsn kind) >>= _) = _
  rw [ran]
  rfl

/-- The original instruction is put back. -/
theorem detach_restores (server : n = 32 ∨ n = 64) {after : Process n} {before : Inferior n}
    {k : Nat} {data : Nat → BitVec 8}
    (installed : after.linker.bkpt ≠ 0#n)
    (was : Read before after.linker.bkpt after.linker.kind after.linker.insn)
    (reaches : Reaches before after.linker.bkpt (size after.linker.kind) k)
    (wrote : after.inferior = overwrite before after.linker.bkpt 0 k data) :
    ∃ detached, linkerDetach after = .ok detached ∧ detached.linker.bkpt = 0#n ∧
    detached.inferior = before := by
  have live : after.inferior.dead = false := by
    by_contra dead
    have first := was.mapped 0 (by cases after.linker.kind <;> decide)
    have gone : before.dead = true := by
      rw [wrote] at dead
      exact Bool.not_eq_false _ ▸ dead
    rw [before.gone gone] at first
    cases first
  obtain ⟨l, again, ran⟩ := patchInsn_reaches server live was.aligned was.valid
  rw [wrote] at again ran
  have same : k = l := reaches.unique ⟨again.upTo, again.inside, again.stops⟩
  rw [← same, overwrite_back fun i inside => was.same i (Nat.lt_of_lt_of_le inside reaches.upTo)] at ran
  rw [linkerDetach, if_pos installed, wrote, ran]
  exact ⟨_, rfl, rfl, rfl⟩

/-- Whether the outcome is right where an instruction is read. -/
theorem placed_read (server : n = 32 ∨ n = 64) (idle : process.linker.bkpt = 0#n)
    (taken : Taken process address segment filename)
    (read : patchReadInsnDetectKind process.inferior (address &&& ~~~1#n)
      (detectKindFromUnalignedAddress process.mode32 address) = .ok (some insn, kind)) {k : Nat}
    (reaches : Reaches process.inferior (address &&& ~~~1#n) (size kind) k) :
    Placed process address ↔
      if k = size kind ∧ address &&& ~~~1#n ≠ 0#n then filename ∈ linkers
      else ∀ i < k, process.inferior.memory ((address &&& ~~~1#n) + BitVec.ofNat n i) =
        stored kind (getBreakpointInsn kind) i := by
  obtain ⟨k', reaches', ran⟩ := attach_read server idle taken read
  cases reaches'.unique reaches
  obtain ⟨above, below⟩ := segmentGet_some taken.found
  have was := detected_read read
  by_cases whole : k = size kind ∧ address &&& ~~~1#n ≠ 0#n
  · rw [if_pos whole]
    rw [whole.1, beq_self_eq_true, if_pos rfl] at ran
    constructor
    · rintro ⟨after, ran', installed, -⟩
      cases ran.symm.trans ran'
      obtain ⟨segment', filename', found, -, -, -, named, isLinker⟩ := (installed whole.2).segment
      cases taken.found.symm.trans found
      cases taken.named.symm.trans named
      exact isLinker
    · intro isLinker
      refine ⟨_, ran, fun _ => ?_, fun zero => absurd zero whole.2, ?_⟩
      · exact ⟨⟨segment, filename, taken.found, above, below, taken.executable, taken.named,
          isLinker⟩, was.reads, rfl⟩
      · exact detach_restores server whole.2 was reaches (by rw [whole.1])
  · rw [if_neg whole]
    have none : (if k == size kind then address &&& ~~~1#n else 0#n) = 0#n := by
      split
      · rename_i all
        by_contra some
        exact whole ⟨by simpa using all, some⟩
      · rfl
    rw [none] at ran
    have small : k ≤ 2 ^ n := by
      have := reaches.upTo
      have four : size kind ≤ 4 := by cases kind <;> decide
      have large : 4 ≤ 2 ^ n := by rcases server with rfl | rfl <;> decide
      omega
    rw [← overwrite_same small]
    constructor
    · rintro ⟨after, ran', -, unchanged, -⟩
      cases ran.symm.trans ran'
      exact unchanged rfl
    · intro same
      exact ⟨_, ran, fun some => absurd rfl some, fun _ => same, _, detach_nothing rfl, rfl, same⟩

/-- A candidate that is taken for one in a linker is found in one segment. -/
theorem Taken.unique {segment' : Segment n} {filename' : CString}
    (taken : Taken process address segment filename)
    (again : Taken process address segment' filename') : filename' = filename := by
  have here := taken.found.symm.trans again.found
  cases here
  exact Option.some.inj (again.named.symm.trans taken.named)

private theorem misaligned_fails (idle : process.linker.bkpt = 0#n)
    (taken : Taken process address segment filename)
    (misaligned : checkAlign (address &&& ~~~1#n)
      (detectKindFromUnalignedAddress process.mode32 address) = false) :
    linkerAttach process address = .error .assertion := by
  rw [attach_taken idle taken, detect_misaligned misaligned]
  rfl

private theorem proper_of_placed (server : n = 32 ∨ n = 64) (idle : process.linker.bkpt = 0#n)
    (placed : Placed process address) : Proper process address := by
  intro segment filename taken
  have aligned : checkAlign (address &&& ~~~1#n)
      (detectKindFromUnalignedAddress process.mode32 address) = true := by
    by_contra misaligned
    obtain ⟨after, ran, -⟩ := placed
    cases (misaligned_fails idle taken (by simpa using misaligned)).symm.trans ran
  exact ⟨aligned, fun insn kind k read reaches => (placed_read server idle taken read reaches).mp placed⟩

private theorem placed_of_proper (server : n = 32 ∨ n = 64) (idle : process.linker.bkpt = 0#n)
    (proper : Proper process address) : Placed process address := by
  by_cases passed : ∀ segment filename, ¬Taken process address segment filename
  · obtain ⟨after, ran, none, same⟩ := attach_passed idle passed
    exact ⟨after, ran, fun some => absurd none some, fun _ => same, after,
      detach_nothing none, none, same⟩
  · simp only [not_forall, not_not] at passed
    obtain ⟨segment, filename, taken⟩ := passed
    obtain ⟨aligned, whenRead⟩ := proper segment filename taken
    obtain ⟨⟨found, kind⟩, read⟩ := detect_ran process.inferior aligned
    cases found with
    | none =>
      have ran := attach_taken idle taken
      rw [read] at ran
      exact ⟨_, ran, fun some => absurd rfl some, fun _ => rfl, _, detach_nothing rfl, rfl, rfl⟩
    | some insn =>
      obtain ⟨k, reaches, -⟩ := attach_read server idle taken read
      exact (placed_read server idle taken read reaches).mpr (whenRead insn kind k read reaches)

/-- The outcome is right if and only if a candidate that is taken for an address in a
linker is aligned, and is in a linker when the breakpoint can be written. -/
theorem placed_iff (server : n = 32 ∨ n = 64) (process : Process n) (idle : process.linker.bkpt = 0#n)
    (address : BitVec n) : Placed process address ↔ Proper process address :=
  ⟨proper_of_placed server idle, placed_of_proper server idle⟩

/-- A process with one page of code from a file, at `0x1000`. -/
private def onePage (filename : CString) : Process 32 where
  mode32 := true
  segments := OrderedTree.singleton 0x1000 ⟨0x1000, 0x2000, true, some filename⟩
  keyed := by
    intro e member
    cases List.mem_singleton.mp member
    rfl
  linker := ⟨0, 0, .a32⟩
  inferior :=
    { memory := fun _ => 0
      mapped := fun address => 0x1000 ≤ address && address < 0x2000
      dead := false
      gone := fun dead => Bool.noConfusion dead }

private theorem page_taken {filename : CString} (passes : isLinkerFilename filename = false) :
    Taken (onePage filename) 0x1000 ⟨0x1000, 0x2000, true, some filename⟩ filename :=
  ⟨by decide, rfl, rfl, rfl, passes⟩

private theorem page_read (filename : CString) :
    patchReadInsnDetectKind (onePage filename).inferior (0x1000 &&& ~~~1#32)
      (detectKindFromUnalignedAddress (onePage filename).mode32 0x1000#32) = .ok (some 0, .a32) := by
  have bytes : memRead (onePage filename).inferior (0x1000 &&& ~~~1#32) 4 = some fun _ => 0 := rfl
  have read : patchReadInsn (onePage filename).inferior (0x1000 &&& ~~~1#32) .a32 = .ok (some 0) := by
    rw [patchReadInsn, if_pos (by decide), if_neg (by decide), bytes]
    rfl
  show patchReadInsnDetectKind (onePage filename).inferior (0x1000 &&& ~~~1#32) .a32 = _
  rw [patchReadInsnDetectKind, if_pos (.inr rfl), read]
  rfl

private theorem page_reaches (filename : CString) :
    Reaches (onePage filename).inferior (0x1000 &&& ~~~1#32) (size .a32) 4 where
  upTo := by decide
  inside := by
    show ∀ i < 4, accessible (onePage filename).inferior _ = true
    intro i inside
    match i, inside with
    | 0, _ | 1, _ | 2, _ | 3, _ => rfl
  stops more := absurd more (by decide)

/-- In a file of the right name. -/
theorem linker_placed : Placed (onePage (text "/system/bin/linker")) 0x1000 :=
  (placed_iff (.inl rfl) (onePage (text "/system/bin/linker")) rfl 0x1000).mpr fun segment
    filename taken => by
    have same := (page_taken (by decide)).unique taken
    refine ⟨by decide, fun insn kind k read reaches => ?_⟩
    cases (page_read _).symm.trans read
    cases (page_reaches _).unique reaches
    rw [if_pos ⟨rfl, by decide⟩, same]
    exact List.mem_cons_self

/-- In any other file. -/
theorem library_patched : ¬Placed (onePage (text "/system/lib/libc.so")) 0x1000 := by
  intro placed
  have taken : Taken (onePage (text "/system/lib/libc.so")) 0x1000 _ _ := page_taken (by decide)
  obtain ⟨-, whenRead⟩ := proper_of_placed (.inl rfl) rfl placed _ _ taken
  have isLinker := whenRead 0 .a32 4 (page_read _) (page_reaches _)
  rw [if_pos ⟨rfl, by decide⟩] at isLinker
  exact absurd isLinker (by decide)

end Adbi.LinkerAttachProofs
