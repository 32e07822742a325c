import Adbi.FileOffsets
import Mathlib.Tactic.Common

/-! Three translations of an offset in a file to an address. `segment_fo2addr`
checks the address from both sides, `segment_get_by_file` only from above, and
`segment_iter_mapped` compares offsets whose upper end may have wrapped. -/
namespace Adbi.FileOffsetsProofs
open Adbi.Payload (CString)
open Adbi.FileOffsets

variable {segment : Segment} {name : CString} {offset : Address}

/-- The address at which `segment_fo2addr` says that the offset is mapped. -/
def mappedAt (result : Address) : Option Address := if result = 0 then none else some result

private theorem mappedAt_zero : mappedAt 0 = none := if_pos rfl

private theorem mappedAt_of_ne {result : Address} (nonzero : result ≠ 0) :
    mappedAt result = some result :=
  if_neg nonzero

/-- All translations of the offset give the same answer, and it is an address of the segment at
which the offset is. -/
def Agree (segment : Segment) (name : CString) (offset : Address) : Prop :=
  ∃ result, segmentFo2addr segment offset = .ok result ∧
    segmentGetByFile [segment] name offset = .ok ((mappedAt result).map (segment, ·)) ∧
    segmentIterMapped [segment] name offset = ((mappedAt result).map (segment, ·)).toList ∧
    ∀ address, mappedAt result = some address →
      segment.start ≤ address ∧ address < segment.stop ∧ segmentAddr2fo segment address = .ok offset

/-- Every address of the segment is found again from its offset; the address 0 cannot be told from
no address. -/
def Inverse (segment : Segment) : Prop :=
  ∀ address, address ≠ 0 → segment.start ≤ address → address < segment.stop →
    (segmentAddr2fo segment address >>= segmentFo2addr segment) = .ok address

/-- What the offset is behind the start of the mapping, as a natural number. -/
def distance (segment : Segment) (offset : Address) : Nat := (offset - segment.offset).toNat

/-- The size of the segment. -/
def extent (segment : Segment) : Nat := segment.stop.toNat - segment.start.toNat

/-- No end wraps: an offset in the mapping lies in a mapping that ends below
`2^64` and not at the address 0; any other offset lies below the mapping or at an
address that exists. The assertion limits the name. -/
structure Unwrapped (segment : Segment) (name : CString) (offset : Address) : Prop where
  short : name.length < maxPath
  inside : distance segment offset < extent segment →
    segment.offset.toNat + extent segment < 2 ^ 64 ∧ ¬(segment.start = 0 ∧ offset = segment.offset)
  outside : extent segment ≤ distance segment offset →
    offset < segment.offset ∨ segment.start.toNat + distance segment offset < 2 ^ 64

/-! ## The three checks -/

/-- The address that all three compute. -/
def place (segment : Segment) (offset : Address) : Address := segment.start + (offset - segment.offset)

private theorem place_eq (segment : Segment) (offset : Address) :
    segment.start + offset - segment.offset = place segment offset := by
  simp only [place]
  bv_omega

private theorem toNat_place (segment : Segment) (offset : Address) :
    (place segment offset).toNat = (segment.start.toNat + distance segment offset) % 2 ^ 64 := by
  simp only [place, distance, BitVec.toNat_add]

/-- Compared with both ends, an address that wrapped is outside of the segment. -/
private theorem place_mem_iff (nonempty : segment.start < segment.stop) :
    (segment.start ≤ place segment offset ∧ place segment offset < segment.stop) ↔
      distance segment offset < extent segment := by
  have below : distance segment offset < 2 ^ 64 := BitVec.isLt _
  have start := segment.start.isLt
  have stop := segment.stop.isLt
  rw [BitVec.lt_def] at nonempty
  rw [BitVec.le_def, BitVec.lt_def, toNat_place, extent]
  omega

/-- Compared with the upper end only, an address that wrapped is inside. -/
private theorem place_lt_iff (nonempty : segment.start < segment.stop) :
    place segment offset < segment.stop ↔
      distance segment offset < extent segment ∨
      2 ^ 64 ≤ segment.start.toNat + distance segment offset := by
  have below : distance segment offset < 2 ^ 64 := BitVec.isLt _
  have start := segment.start.isLt
  have stop := segment.stop.isLt
  rw [BitVec.lt_def] at nonempty
  rw [BitVec.lt_def, toNat_place, extent]
  omega

/-- Comparing the offset with the wrapped ends of the mapping. -/
private theorem offset_between_iff (nonempty : segment.start < segment.stop) :
    (segment.offset ≤ offset ∧ offset < segment.offset + segment.stop - segment.start) ↔
      distance segment offset < extent segment ∧ segment.offset.toNat + extent segment < 2 ^ 64 := by
  have start := segment.start.isLt
  have stop := segment.stop.isLt
  have low := segment.offset.isLt
  have here := offset.isLt
  rw [BitVec.lt_def] at nonempty
  rw [BitVec.le_def, BitVec.lt_def, BitVec.toNat_sub, BitVec.toNat_add, distance, extent,
    BitVec.toNat_sub]
  omega

theorem segmentFo2addr_eq (named : segment.filename = some name)
    (nonempty : segment.start < segment.stop) :
    segmentFo2addr segment offset =
      .ok (if distance segment offset < extent segment then place segment offset else 0) := by
  simp only [segmentFo2addr, named, Option.isSome_some, if_true, place_eq]
  by_cases inside : distance segment offset < extent segment
  · have member := (place_mem_iff nonempty).mpr inside
    rw [if_pos inside, if_neg]
    rintro (low | high)
    · exact absurd member.1 (BitVec.not_le.mpr low)
    · exact absurd member.2 (BitVec.not_lt.mpr high)
  · rw [if_neg inside, if_pos]
    by_contra both
    rw [not_or, BitVec.not_lt, BitVec.not_le] at both
    exact inside ((place_mem_iff nonempty).mp both)

theorem segmentGetByFile_eq (named : segment.filename = some name)
    (nonempty : segment.start < segment.stop)
    (short : name.length < maxPath) :
    segmentGetByFile [segment] name offset =
      .ok (if segment.offset ≤ offset ∧ (distance segment offset < extent segment ∨
          2 ^ 64 ≤ segment.start.toNat + distance segment offset)
        then some (segment, place segment offset) else none) := by
  simp only [segmentGetByFile, segmentGetByFileLoop, if_pos short, named, ne_eq, not_true, if_false]
  change Except.ok (if offset < segment.offset then none
    else if segment.stop ≤ place segment offset then none else some (segment, place segment offset)) = _
  congr 1
  simp only [← place_lt_iff nonempty]
  by_cases low : offset < segment.offset
  · rw [if_pos low, if_neg]
    exact fun both => absurd both.1 (BitVec.not_le.mpr low)
  · rw [if_neg low]
    by_cases high : segment.stop ≤ place segment offset
    · rw [if_pos high, if_neg]
      exact fun both => absurd both.2 (BitVec.not_lt.mpr high)
    · rw [if_neg high, if_pos]
      exact ⟨BitVec.not_lt.mp low, BitVec.not_le.mp high⟩

theorem segmentIterMapped_eq (named : segment.filename = some name)
    (nonempty : segment.start < segment.stop) :
    segmentIterMapped [segment] name offset =
      if distance segment offset < extent segment ∧ segment.offset.toNat + extent segment < 2 ^ 64
        then [(segment, place segment offset)] else [] := by
  simp only [segmentIterMapped, List.filterMap_cons, List.filterMap_nil, iterMappedInner, named,
    if_true, place_eq]
  by_cases between : segment.offset ≤ offset ∧ offset < segment.offset + segment.stop - segment.start
  · rw [if_pos between, if_pos ((offset_between_iff nonempty).mp between)]
  · rw [if_neg between, if_neg fun both => between ((offset_between_iff nonempty).mpr both)]

/-- The offset of an address of the segment is mapped at that address. -/
private theorem place_of_offset (segment : Segment) (address : Address) :
    place segment (address - segment.start + segment.offset) = address := by
  simp only [place]
  bv_omega

private theorem offset_of_place (segment : Segment) (offset : Address) :
    place segment offset - segment.start + segment.offset = offset := by
  simp only [place]
  bv_omega

theorem inverse (named : segment.filename = some name) (nonempty : segment.start < segment.stop) :
    Inverse segment := by
  intro address _ low high
  have contains : segmentContains segment address = true := by simp [segmentContains, low, high]
  have inside : distance segment (address - segment.start + segment.offset) < extent segment := by
    rw [← place_mem_iff nonempty, place_of_offset]
    exact ⟨low, high⟩
  simp only [segmentAddr2fo, contains, if_true]
  change segmentFo2addr segment _ = _
  rw [segmentFo2addr_eq named nonempty, if_pos inside, place_of_offset]
/-! ## Agreement -/

/-- An offset that the segment maps. -/
private theorem agree_inside (named : segment.filename = some name)
    (nonempty : segment.start < segment.stop)
    (short : name.length < maxPath) (inside : distance segment offset < extent segment) :
    Agree segment name offset ↔
      segment.offset.toNat + extent segment < 2 ^ 64 ∧
      ¬(segment.start = 0 ∧ offset = segment.offset) := by
  have member := (place_mem_iff nonempty).mpr inside
  have zero : place segment offset = 0 ↔ segment.start = 0 ∧ offset = segment.offset := by
    constructor
    · intro isZero
      have start : segment.start = 0 := by
        have low := member.1
        rw [isZero] at low
        simpa using low
      refine ⟨start, ?_⟩
      rw [← offset_of_place segment offset, isZero, start]
      simp
    · rintro ⟨start, rfl⟩
      simp [place, start]
  rw [Agree, segmentFo2addr_eq named nonempty, segmentGetByFile_eq named nonempty short,
    segmentIterMapped_eq named nonempty, if_pos inside, ← zero]
  constructor
  · rintro ⟨result, translated, found, iterated, _⟩
    obtain rfl : place segment offset = result := by simpa using translated
    by_cases isZero : place segment offset = 0
    · have bound : segment.offset ≤ offset := by rw [(zero.mp isZero).2]; exact BitVec.le_refl _
      rw [if_pos ⟨bound, .inl inside⟩, isZero, mappedAt_zero] at found
      cases found
    · refine ⟨?_, isZero⟩
      by_contra wraps
      rw [if_neg fun both => wraps both.2, mappedAt_of_ne isZero] at iterated
      cases iterated
  · rintro ⟨fits, notZero⟩
    have bound : segment.offset ≤ offset := ((offset_between_iff nonempty).mpr ⟨inside, fits⟩).1
    rw [if_pos ⟨bound, .inl inside⟩, if_pos ⟨inside, fits⟩]
    refine ⟨_, rfl, ?_⟩
    rw [mappedAt_of_ne notZero]
    refine ⟨rfl, rfl, fun address isAddress => ?_⟩
    obtain rfl := Option.some.inj isAddress
    have contains : segmentContains segment (place segment offset) = true :=
      by simp [segmentContains, member]
    refine ⟨member.1, member.2, ?_⟩
    rw [segmentAddr2fo, if_pos contains, offset_of_place]

/-- An offset that the segment does not map. -/
private theorem agree_outside (named : segment.filename = some name)
    (nonempty : segment.start < segment.stop)
    (short : name.length < maxPath) (outside : extent segment ≤ distance segment offset) :
    Agree segment name offset ↔
      offset < segment.offset ∨ segment.start.toNat + distance segment offset < 2 ^ 64 := by
  have notInside : ¬distance segment offset < extent segment := Nat.not_lt.mpr outside
  rw [Agree, segmentFo2addr_eq named nonempty, segmentGetByFile_eq named nonempty short,
    segmentIterMapped_eq named nonempty, if_neg notInside]
  constructor
  · rintro ⟨result, translated, found, -, -⟩
    obtain rfl : (0 : Address) = result := by simpa using translated
    by_contra neither
    rw [not_or, BitVec.not_lt, Nat.not_lt] at neither
    rw [if_pos ⟨neither.1, .inr neither.2⟩, mappedAt_zero] at found
    cases found
  · intro unwrapped
    have lost : ¬(segment.offset ≤ offset ∧ (distance segment offset < extent segment ∨
        2 ^ 64 ≤ segment.start.toNat + distance segment offset)) := by
      rintro ⟨low, inside | wraps⟩
      · exact notInside inside
      · rcases unwrapped with below | fits
        · exact BitVec.not_lt.mpr low below
        · omega
    rw [if_neg lost, if_neg fun both => notInside both.1]
    refine ⟨0, rfl, ?_⟩
    rw [mappedAt_zero]
    exact ⟨rfl, rfl, nofun⟩

/-- The three translations of an offset agree exactly when no end wraps, and every
address of a segment is found again from its offset. -/
theorem translations_consistent_iff (named : segment.filename = some name)
    (nonempty : segment.start < segment.stop) :
    Agree segment name offset ∧ Inverse segment ↔ Unwrapped segment name offset := by
  rw [and_iff_left (inverse named nonempty)]
  by_cases short : name.length < maxPath
  · by_cases inside : distance segment offset < extent segment
    · rw [agree_inside named nonempty short inside]
      exact ⟨fun fits => ⟨short, fun _ => fits, fun outside => absurd inside (Nat.not_lt.mpr outside)⟩,
        fun unwrapped => unwrapped.inside inside⟩
    · have outside := Nat.not_lt.mp inside
      rw [agree_outside named nonempty short outside]
      exact ⟨fun fits => ⟨short, fun within => absurd within inside, fun _ => fits⟩,
        fun unwrapped => unwrapped.outside outside⟩
  · refine iff_of_false ?_ fun unwrapped => short unwrapped.short
    rintro ⟨result, -, found, -, -⟩
    simp [segmentGetByFile, short] at found

/-- The text of a library that is mapped behind the first megabyte. -/
def mapped : Segment := ⟨0x100000, 0x120000, some [0x6c], 0⟩

theorem mapped_consistent : Agree mapped [0x6c] 0x1000 ∧ Inverse mapped :=
  (translations_consistent_iff rfl (by simp [mapped])).mpr
    ⟨by simp [maxPath], by simp [mapped, distance, extent], by simp [mapped, distance, extent]⟩

/-- An offset near `2^64` wraps to an address in front of the segment, at which only
`segment_get_by_file` finds it. -/
theorem far_offset_found : mapped.filename = some [0x6c] ∧ mapped.start < mapped.stop ∧
    segmentFo2addr mapped 0xfffffffffff80000 = .ok 0 ∧ segmentIterMapped [mapped]
    [0x6c] 0xfffffffffff80000 = [] ∧
    segmentGetByFile [mapped] [0x6c] 0xfffffffffff80000 = .ok (some (mapped, 0x80000)) ∧
    ¬mapped.start ≤ 0x80000 ∧ ¬Agree mapped [0x6c] 0xfffffffffff80000 := by
  have found : segmentGetByFile [mapped] [0x6c] 0xfffffffffff80000 = .ok (some (mapped, 0x80000)) :=
    by decide
  refine ⟨rfl, by decide, by decide, by decide, found, by decide, ?_⟩
  rintro ⟨result, -, agreed, -, inside⟩
  rw [found] at agreed
  cases which : mappedAt result with
  | none => simp [which] at agreed
  | some address =>
    obtain rfl : (0x80000 : Address) = address := by simpa [which] using agreed
    exact absurd (inside _ which).1 (by decide)

end Adbi.FileOffsetsProofs
