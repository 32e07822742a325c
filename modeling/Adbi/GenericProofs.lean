import Adbi.Lib.Encodings
import Adbi.Operands
import Adbi.TemplateSelect
import Adbi.A64Template

/-! The verbatim templates are chosen for instructions that do not read the pc,
but for two branches of the Thumb instruction set. -/
namespace Adbi.GenericProofs
open Adbi.Lib Adbi.Operands Adbi.TemplateSelect

variable {n : Nat} {table : List (Pattern × Reads)}

/-! ## Operands that are the pc -/

/-- The bits with which an operand is the pc. -/
def pcBits : Operand → List Bits
  | .reg low => [Bits.ofField low 15#4]
  | .split high low => [Bits.ofField high 1#1, Bits.ofField low 7#3]
  | .second low => [Bits.ofField low 14#4]
  | .list => [Bits.ofField 15 1#1]
  | .pc => []

private theorem source_eq_pc {number : Nat} : source number = .pc ↔ number = 15 := by
  unfold source
  split <;> simp_all

private theorem field_inside {w : BitVec n} {low length : Nat} {v : BitVec length}
    (same : field w low length = v)
    (top : v.msb = true) : low + length ≤ n := by
  have positive : 0 < length := by
    by_contra
    have : length = 0 := by omega
    subst this
    simp [BitVec.msb_eq_getLsbD_last] at top
  have set : w.getLsbD (low + (length - 1)) = true := by
    rw [← same, BitVec.msb_eq_getLsbD_last] at top
    simp [field] at top
    exact top.2
  have := BitVec.lt_of_getLsbD set
  omega

private theorem bits_of_field {w : BitVec n} {low length : Nat} {v : BitVec length}
    (same : field w low length = v)
    (top : v.msb = true) : ∀ b ∈ [Bits.ofField low v], b.of w := by
  intro b member
  rw [List.mem_singleton.mp member]
  exact (field_eq_iff low v (field_inside same top)).mp same

private theorem field_of_toNat {w : BitVec n} {low : Nat} {v : BitVec 4}
    (same : (field w low 4).toNat = v.toNat) :
    field w low 4 = v := BitVec.eq_of_toNat_eq same

private theorem append_eq_fifteen : ∀ (a : BitVec 1) (b : BitVec 3), a ++ b = 15#4 →
    a = 1#1 ∧ b = 7#3 := by decide

private theorem pcBits_of_source {w : BitVec n} {op : Operand} (reads : .pc ∈ op.sources w) :
    ∀ b ∈ pcBits op, b.of w := by
  cases op with
  | reg low =>
    exact bits_of_field (field_of_toNat (source_eq_pc.mp (List.mem_singleton.mp reads).symm)) rfl
  | split high low =>
    have same : field w high 1 ++ field w low 3 = 15#4 :=
      BitVec.eq_of_toNat_eq (source_eq_pc.mp (List.mem_singleton.mp reads).symm)
    obtain ⟨first, rest⟩ := append_eq_fifteen _ _ same
    intro b member
    rcases List.mem_cons.mp member with rfl | member
    · exact bits_of_field first rfl _ List.mem_cons_self
    · exact bits_of_field rest rfl _ member
  | second low =>
    have same := source_eq_pc.mp (List.mem_singleton.mp reads).symm
    exact bits_of_field (field_of_toNat (v := 14#4) (by simpa using same)) rfl
  | list =>
    obtain ⟨i, member, is⟩ := List.mem_map.mp reads
    obtain rfl := source_eq_pc.mp is
    have set : w.getLsbD 15 = true := (List.mem_filter.mp member).2
    have same : field w 15 1 = 1#1 := by
      ext i h
      simp [field]
      grind
    exact bits_of_field same rfl
  | pc => simp [pcBits]

/-- The words that read the pc, by a table. -/
def pcEncodings (table : List (Pattern × Reads)) : List Encodings :=
  (tableEncodings table).flatMap fun entry => entry.2.may.map fun op =>
  ⟨pcBits op ++ entry.1.has, entry.1.lacks⟩

private theorem holds_of_reads {w : BitVec n}
    (reads : .pc ∈ (readsOf table w).may.flatMap (·.sources w)) :
    ∃ e ∈ pcEncodings table, e.holds w := by
  unfold readsOf at reads
  cases decoded : decodeWith table w with
  | none => simp [decoded] at reads
  | some entry =>
    rw [decoded] at reads
    obtain ⟨e, member, holds⟩ := decodeWith_encodings decoded
    obtain ⟨op, listed, is⟩ := List.mem_flatMap.mp reads
    refine ⟨⟨pcBits op ++ e.has, e.lacks⟩, ?_, ?_, holds.2⟩
    · exact List.mem_flatMap.mpr ⟨(e, entry), member, List.mem_map.mpr ⟨op, listed, rfl⟩⟩
    · intro b here
      rcases List.mem_append.mp here with here | here
      · exact pcBits_of_source is b here
      · exact holds.1 b here

/-- None of the words of `cover` reads the pc. -/
def readsNoPc (n : Nat) (table : List (Pattern × Reads)) (cover : List Encodings) : Bool :=
  cover.all fun e => e.contradictory n || (pcEncodings table).all fun e' => e.apart n e'

private theorem not_reads {w : BitVec n} {cover : List Encodings}
    (checked : readsNoPc n table cover = true)
    (holds : ∃ e ∈ cover, e.holds w) : .pc ∉ (readsOf table w).may.flatMap (·.sources w) := by
  intro reads
  obtain ⟨e, member, first⟩ := holds
  obtain ⟨e', member', second⟩ := holds_of_reads reads
  rcases Bool.or_eq_true _ _ ▸ List.all_eq_true.mp checked e member with contradictory | apart
  · exact Encodings.not_holds_of_contradictory contradictory first
  · exact Encodings.not_holds_of_apart (List.all_eq_true.mp apart e' member') first second

/-- Independence of the position is not reading the pc. -/
private theorem positionIndependent_iff (insn : Insn) (predictable : ¬insn.Unpredictable) :
    insn.PositionIndependent ↔ .pc ∉ insn.may := by
  constructor
  · intro same reads
    have values := same (fun _ => 0) 0 1
    unfold Insn.inputs at values
    rw [List.map_inj_left] at values
    have here := values .pc (List.mem_append_left _ reads)
    cases insn <;> simp [Insn.pcValue] at here
  · intro free r address address'
    unfold Insn.inputs
    rw [List.map_inj_left]
    intro source member
    cases source with
    | register number => rfl
    | pc =>
      rcases List.mem_append.mp member with member | member
      · exact absurd member free
      · exact absurd member predictable

/-! ## Selectors -/

/-- The words for which `decode` selects a template are among those of `cover`. -/
def Covers (template : Template) (decode : BitVec n → Selection) (cover : List Encodings) : Prop :=
  ∀ w, decode w = .template template → ∃ e ∈ cover, e.holds w

/-- Every word. -/
def anyWord : List Encodings := [⟨[], []⟩]

private theorem covers_any {template : Template} {decode : BitVec n → Selection} :
    Covers template decode anyWord := by
  intro w _
  exact ⟨⟨[], []⟩, List.mem_cons_self, by simp [Encodings.holds]⟩

private theorem covers_none {template : Template} {selection : Selection}
    (other : selection ≠ .template template) :
    Covers template (fun _ : BitVec n => selection) [] := fun _ selected => absurd selected other

/-- The cover of a sequence of decoders from covers of each. -/
def coverOf (decoders : List (Pattern × (BitVec n → Selection))) (covers : List (List Encodings)) :
    List Encodings :=
  (tableEncodings (List.zipWith (fun decoder cover => (decoder.1, cover)) decoders covers)).flatMap
    fun entry =>
    entry.2.map entry.1.both

private theorem decodeWith_zip {template : Template} {decoders : List (Pattern × (BitVec n → Selection))}
    {covers : List (List Encodings)} {k : Nat} {key : BitVec k} {decode : BitVec n → Selection}
    (each : List.Forall₂ (fun decoder cover => Covers template decoder.2 cover) decoders covers)
    (decoded : decodeWith decoders key = some decode) :
    ∃ cover, decodeWith (List.zipWith (fun decoder cover => (decoder.1, cover)) decoders covers)
      key = some cover ∧
      Covers template decode cover := by
  induction each with
  | nil => simp [decodeWith] at decoded
  | @cons decoder cover decoders covers first _ ih =>
    cases here : wordMatches key decoder.1 with
    | true =>
      simp only [decodeWith, List.find?_cons, here, Option.map_some, Option.some.injEq] at decoded
      subst decoded
      exact ⟨cover, by simp [decodeWith, here], first⟩
    | false =>
      simp only [decodeWith, List.find?_cons, here] at decoded
      obtain ⟨cover, found, covers⟩ := ih decoded
      exact ⟨cover, by simpa [decodeWith, here] using found, covers⟩

private theorem selectOn_covers {template : Template}
    {decoders : List (Pattern × (BitVec n → Selection))}
    {covers : List (List Encodings)}
    (each : List.Forall₂ (fun decoder cover => Covers template decoder.2 cover) decoders covers) :
    Covers template (fun w => selectOn decoders w w) (coverOf decoders covers) := by
  intro w selected
  simp only [selectOn] at selected
  split at selected
  · rename_i decode decoded
    obtain ⟨cover, found, covers⟩ := decodeWith_zip each decoded
    obtain ⟨e, member, outer⟩ := decodeWith_encodings found
    obtain ⟨e', member', inner⟩ := covers w selected
    refine ⟨e.both e', ?_, Encodings.holds_both outer inner⟩
    exact List.mem_flatMap.mpr ⟨(e, cover), member, List.mem_map.mpr ⟨e', member', rfl⟩⟩
  · cases selected

/-! ## ARM -/

/-- The bits of a register field that holds the pc. -/
def pcAt (low : Nat) : Bits := Bits.ofField low 15#4

/-- A bit of the word. -/
def bitAt (i : Nat) (value : Bool) : Bits := Bits.ofField i (BitVec.ofBool value)

private theorem bitAt_iff {w : BitVec n} {i : Nat} {value : Bool} (inside : i + 1 ≤ n) :
    (bitAt i value).of w ↔ w.getLsbD i = value := by
  rw [bitAt, ← field_eq_iff i _ inside]
  constructor
  · intro same
    have here := congrArg (·.getLsbD 0) same
    simpa [field] using here
  · rintro rfl
    ext j h
    have : j = 0 := by omega
    subst this
    simp [field]

private theorem not_pcAt {w : BitVec n} {low : Nat} (inside : low + 4 ≤ n)
    (other : isPc (field w low 4) = false) :
    ¬(pcAt low).of w := by
  rw [pcAt, ← field_eq_iff low _ inside]
  simpa [isPc] using other

def branchCover : List Encodings := [⟨[bitAt 5 false], [pcAt 0]⟩]

def dataprocCover : List Encodings :=
  [⟨[bitAt 25 true, Bits.ofField 21 0b1101#4], []⟩, ⟨[bitAt 25 true, Bits.ofField 21 0b1111#4], []⟩,
   ⟨[bitAt 25 true], [pcAt 16]⟩, ⟨[bitAt 25 false, Bits.ofField 21 0b1101#4], [pcAt 0]⟩,
   ⟨[bitAt 25 false, Bits.ofField 21 0b1111#4], [pcAt 0]⟩, ⟨[bitAt 25 false], [pcAt 16, pcAt 0]⟩]

def loadStoreCover : List Encodings := [⟨[], [pcAt 16, pcAt 12]⟩, ⟨[bitAt 20 true], [pcAt 16]⟩]

def loadStoreMultipleCover : List Encodings := [⟨[bitAt 20 true], []⟩, ⟨[], [bitAt 15 true]⟩]

def loadStoreExtraCover : List Encodings := [⟨[], [pcAt 16]⟩]

/-- Covers of the words that the decoders of `template_select_arm` leave to the verbatim template. -/
def armCovers : List (List Encodings) :=
  [[], [], [], [], [], [], [], anyWord, anyWord, branchCover, anyWord, branchCover, [],
    dataprocCover, dataprocCover,
   dataprocCover, loadStoreCover, loadStoreCover, loadStoreMultipleCover, [], [], [], [], anyWord,
   anyWord, anyWord, anyWord,
   loadStoreExtraCover, loadStoreExtraCover, loadStoreExtraCover, loadStoreExtraCover,
   loadStoreExtraCover,
   loadStoreExtraCover, anyWord]

/-- A cover by one kind of words. -/
private theorem covered {w : BitVec n} {cover : List Encodings} (e : Encodings) (member : e ∈ cover)
    (has : ∀ b ∈ e.has, b.of w) (lacks : ∀ b ∈ e.lacks, ¬b.of w) : ∃ e ∈ cover, e.holds w :=
    ⟨e, member, has, lacks⟩

private theorem branch_covers : Covers .armGeneric decodeArmBranch branchCover := by
  intro w selected
  unfold decodeArmBranch at selected
  split at selected
  · cases selected
  · split at selected
    · cases selected
    · rename_i rm bit
      refine covered _ List.mem_cons_self ?_ ?_
      · simpa [bitAt_iff] using bit
      · simpa using not_pcAt (by decide) (by simpa using rm)

/-- A data processing instruction that is executed verbatim. -/
private theorem dataproc_generic {w : BitVec 32}
    (selected : decodeArmDataproc w = .template .armGeneric) :
    (w.getLsbD 25 = true ∧
        (field w 21 4 = 0b1101#4 ∨ field w 21 4 = 0b1111#4 ∨ isPc (field w 16 4) = false)) ∨
      (w.getLsbD 25 = false ∧ isPc (field w 0 4) = false ∧
        (field w 21 4 = 0b1101#4 ∨ field w 21 4 = 0b1111#4 ∨ isPc (field w 16 4) = false)) := by
  have opcode : ∀ v : BitVec 4, (v.toNat = 13 ∨ v.toNat = 15) → (v = 0b1101#4 ∨ v = 0b1111#4) :=
    by decide
  have opcode := opcode (field w 21 4)
  unfold decodeArmDataproc at selected
  grind

private theorem dataproc_covers : Covers .armGeneric decodeArmDataproc dataprocCover := by
  intro w selected
  rcases dataproc_generic selected with ⟨bit, mov | mvn | rn⟩ | ⟨bit, rm, mov | mvn | rn⟩
  · refine covered ⟨[bitAt 25 true, Bits.ofField 21 0b1101#4], []⟩ (by simp [dataprocCover]) ?_ (by simp)
    simpa [bitAt_iff, ← field_eq_iff, mov] using bit
  · refine covered ⟨[bitAt 25 true, Bits.ofField 21 0b1111#4], []⟩ (by simp [dataprocCover]) ?_ (by simp)
    simpa [bitAt_iff, ← field_eq_iff, mvn] using bit
  · refine covered ⟨[bitAt 25 true], [pcAt 16]⟩ (by simp [dataprocCover]) ?_ ?_
    · simpa [bitAt_iff] using bit
    · simpa using not_pcAt (by decide) rn
  · refine covered ⟨[bitAt 25 false, Bits.ofField 21 0b1101#4], [pcAt 0]⟩ (by simp [dataprocCover]) ?_ ?_
    · simpa [bitAt_iff, ← field_eq_iff, mov] using bit
    · simpa using not_pcAt (by decide) rm
  · refine covered ⟨[bitAt 25 false, Bits.ofField 21 0b1111#4], [pcAt 0]⟩ (by simp [dataprocCover]) ?_ ?_
    · simpa [bitAt_iff, ← field_eq_iff, mvn] using bit
    · simpa using not_pcAt (by decide) rm
  · refine covered ⟨[bitAt 25 false], [pcAt 16, pcAt 0]⟩ (by simp [dataprocCover]) ?_ ?_
    · simpa [bitAt_iff] using bit
    · simpa using ⟨not_pcAt (by decide) rn, not_pcAt (by decide) rm⟩

private theorem loadStore_covers : Covers .armGeneric decodeArmLoadStore loadStoreCover := by
  intro w selected
  have generic : isPc (field w 16 4) = false ∧ (w.getLsbD 20 = true ∨ isPc (field w 12 4) = false) := by
    unfold decodeArmLoadStore at selected
    grind
  obtain ⟨rn, load | rd⟩ := generic
  · refine covered ⟨[bitAt 20 true], [pcAt 16]⟩ (by simp [loadStoreCover]) ?_ ?_
    · simpa [bitAt_iff] using load
    · simpa using not_pcAt (by decide) rn
  · refine covered ⟨[], [pcAt 16, pcAt 12]⟩ (by simp [loadStoreCover]) (by simp) ?_
    simpa using ⟨not_pcAt (by decide) rn, not_pcAt (by decide) rd⟩

private theorem loadStoreMultiple_covers :
    Covers .armGeneric decodeArmLoadStoreMultiple loadStoreMultipleCover := by
  intro w selected
  have listed : (field w 0 16).getLsbD 15 = w.getLsbD 15 := by simp [field]
  have generic : w.getLsbD 20 = true ∨ w.getLsbD 15 = false := by
    unfold decodeArmLoadStoreMultiple at selected
    grind
  rcases generic with load | store
  · refine covered ⟨[bitAt 20 true], []⟩ (by simp [loadStoreMultipleCover]) ?_ (by simp)
    simpa [bitAt_iff] using load
  · refine covered ⟨[], [bitAt 15 true]⟩ (by simp [loadStoreMultipleCover]) (by simp) ?_
    simpa [bitAt_iff] using store

private theorem loadStoreExtra_covers :
    Covers .armGeneric decodeArmLoadStoreExtra loadStoreExtraCover := by
  intro w selected
  have rn : isPc (field w 16 4) = false := by
    unfold decodeArmLoadStoreExtra at selected
    grind
  exact covered ⟨[], [pcAt 16]⟩ List.mem_cons_self (by simp) (by simpa using not_pcAt (by decide) rn)

private theorem loadStoreDual_covers :
    Covers .armGeneric decodeArmLoadStoreDual loadStoreExtraCover := by
  intro w selected
  apply loadStoreExtra_covers w
  unfold decodeArmLoadStoreDual at selected
  grind

private theorem armDecoders_cover :
    List.Forall₂ (fun decoder cover => Covers .armGeneric decoder.2 cover) armDecoders armCovers := by
  unfold armDecoders armCovers
  repeat' apply List.Forall₂.cons
  all_goals first
    | exact covers_none (by decide)
    | exact covers_any
    | exact branch_covers
    | exact dataproc_covers
    | exact loadStore_covers
    | exact loadStoreMultiple_covers
    | exact loadStoreExtra_covers
    | exact loadStoreDual_covers
    | exact List.Forall₂.nil

private theorem arm_reads_no_pc {w : BitVec 32}
    (selected : templateSelectArm w = .template .armGeneric) :
    .pc ∉ (Insn.arm w).may := by
  have checked : readsNoPc 32 armReads (coverOf armDecoders armCovers) = true := by decide
  exact not_reads checked (selectOn_covers armDecoders_cover w selected)

/-! ## Thumb -/

/-- `blx` with a register. -/
def blxRegister : Pattern := "010001111----000"

/-- `bx pc`. -/
def bxPc : Pattern := "0100011101111000"

/-- The bits of `rn`, of which the highest one is apart, when it is the pc. -/
def splitPc : Pattern := "--------1----111"

def dpHrBranchCover : List Encodings :=
  [⟨[Bits.ofField 8 0b00#2], [pcAt 3, splitPc.bits]⟩, ⟨[Bits.ofField 8 0b01#2], []⟩,
    ⟨[Bits.ofField 8 0b10#2], [pcAt 3]⟩,
   ⟨[Bits.ofField 8 0b11#2, Bits.ofField 0 0b000#3], []⟩]

/-- Covers of the words that the decoders of `template_select_thumb` leave to the verbatim template. -/
def thumbCovers : List (List Encodings) :=
  [anyWord, anyWord, dpHrBranchCover, [], anyWord, anyWord, anyWord, anyWord, [],
   coverOf thumbMiscDecoders [anyWord, anyWord, anyWord, []], anyWord, anyWord, [], [], [], []]

private theorem dpHrBranch_generic {w : BitVec 16}
    (selected : decodeThumbDpHrBranch w = .template .thumbGeneric) :
    (field w 8 2 = 0b00#2 ∧ isPc (field w 3 4) = false ∧ isPc (field w 7 1 ++ field w 0 3) = false) ∨
      field w 8 2 = 0b01#2 ∨ (field w 8 2 = 0b10#2 ∧ isPc (field w 3 4) = false) ∨
      (field w 8 2 = 0b11#2 ∧ field w 0 3 = 0b000#3) := by
  have opcodes : ∀ v : BitVec 2, v = 0b00#2 ∨ v = 0b01#2 ∨ v = 0b10#2 ∨ v = 0b11#2 := by decide
  unfold decodeThumbDpHrBranch at selected
  rcases opcodes (field w 8 2) with opcode | opcode | opcode | opcode
  · simp only [opcode, BitVec.toNat_ofNat] at selected
    grind
  · exact .inr (.inl opcode)
  · simp only [opcode, BitVec.toNat_ofNat] at selected
    grind
  · simp only [opcode, BitVec.toNat_ofNat] at selected
    grind

private theorem not_splitPc {w : BitVec 16} (other : isPc (field w 7 1 ++ field w 0 3) = false) :
    ¬splitPc.bits.of w := by
  intro has
  have high := field_of_matches (wordMatches_bits.mpr has) 7 1 (by decide)
  have low := field_of_matches (wordMatches_bits.mpr has) 0 3 (by decide)
  rw [high, low] at other
  revert other
  decide

private theorem dpHrBranch_covers : Covers .thumbGeneric decodeThumbDpHrBranch dpHrBranchCover := by
  intro w selected
  rcases dpHrBranch_generic selected with ⟨opcode, rm, rn⟩ | opcode | ⟨opcode, rm⟩ | ⟨opcode, zero⟩
  · refine covered ⟨[Bits.ofField 8 0b00#2], [pcAt 3, splitPc.bits]⟩ (by simp [dpHrBranchCover]) ?_ ?_
    · simp [← field_eq_iff, opcode]
    · simpa using ⟨not_pcAt (by decide) rm, not_splitPc rn⟩
  · refine covered ⟨[Bits.ofField 8 0b01#2], []⟩ (by simp [dpHrBranchCover]) ?_ (by simp)
    simp [← field_eq_iff, opcode]
  · refine covered ⟨[Bits.ofField 8 0b10#2], [pcAt 3]⟩ (by simp [dpHrBranchCover]) ?_ ?_
    · simp [← field_eq_iff, opcode]
    · simpa using not_pcAt (by decide) rm
  · refine covered ⟨[Bits.ofField 8 0b11#2, Bits.ofField 0 0b000#3],
      []⟩ (by simp [dpHrBranchCover]) ?_ (by simp)
    simp [← field_eq_iff, opcode, zero]

private theorem thumbMisc_covers :
    Covers .thumbGeneric (fun insn => selectOn thumbMiscDecoders insn insn)
    (coverOf thumbMiscDecoders [anyWord, anyWord, anyWord, []]) := by
  apply selectOn_covers
  unfold thumbMiscDecoders
  repeat' apply List.Forall₂.cons
  all_goals first
    | exact covers_none (by decide)
    | exact covers_any
    | exact List.Forall₂.nil

private theorem thumbDecoders_cover :
    List.Forall₂ (fun decoder cover => Covers .thumbGeneric decoder.2 cover) thumbDecoders
      thumbCovers := by
  unfold thumbDecoders thumbCovers
  repeat' apply List.Forall₂.cons
  all_goals first
    | exact covers_none (by decide)
    | exact covers_any
    | exact dpHrBranch_covers
    | exact thumbMisc_covers
    | exact List.Forall₂.nil

/-- Words other than the two branches. -/
def otherThumb : Encodings := ⟨[], [blxRegister.bits, bxPc.bits]⟩

private theorem thumb_reads_no_pc {w : BitVec 16}
    (selected : templateSelectThumb w = .template .thumbGeneric)
    (blx : wordMatches w blxRegister = false) (bx : wordMatches w bxPc = false) :
    .pc ∉ (Insn.thumb w).may := by
  have checked : readsNoPc 16 thumbReads ((coverOf thumbDecoders thumbCovers).map otherThumb.both) =
      true := by
    decide
  apply not_reads checked
  obtain ⟨e, member, holds⟩ := selectOn_covers thumbDecoders_cover w selected
  refine ⟨otherThumb.both e, List.mem_map.mpr ⟨e, member, rfl⟩, Encodings.holds_both ?_ holds⟩
  constructor
  · simp [otherThumb]
  · simp [otherThumb, ← wordMatches_bits, blx, bx]

/-! ## Thumb, 32 bits -/

/-- The words that the selectors of the classes leave to the verbatim template. -/
def thumb32Cover : List Encodings :=
  [⟨[Pattern.bits "1110101-------------------------"], []⟩,
   ⟨[Pattern.bits "1110100--0----------------------"], []⟩,
   ⟨[Pattern.bits "11110-----------1---------------", Bits.ofField 12 0b000#3,
     Bits.ofField 20 0b0111000#7], []⟩,
   ⟨[Pattern.bits "11110-----------1---------------", Bits.ofField 12 0b010#3,
     Bits.ofField 20 0b0111000#7], []⟩,
   ⟨[Pattern.bits "11110011111011111000----00000000"], []⟩,
   ⟨[Pattern.bits "11110-0---------0---------------"], []⟩,
   ⟨[Pattern.bits "11110-1---------0---------------"], [pcAt 16]⟩,
   ⟨[Pattern.bits "11110-1---------0---------------", (Pattern.bits "10--0").shift 20], []⟩,
   ⟨[Pattern.bits "11111000---0--------------------"], []⟩,
   ⟨[Pattern.bits "1111100--101--------------------"], [pcAt 16]⟩,
   ⟨[Pattern.bits "11111010------------------------"], []⟩,
   ⟨[Pattern.bits "111110110-----------------------"], []⟩,
   ⟨[Pattern.bits "111110111-----------------------"], []⟩]

/-- A selector that asserts the class of the word. -/
private theorem covers_class {decode : BitVec 32 → Selection} (p : Pattern)
    (member : ⟨[p.bits], []⟩ ∈ thumb32Cover)
    (asserts : ∀ w, wordMatches w p = false → decode w = .assertion) :
    Covers .thumb2Generic decode thumb32Cover := by
  intro w selected
  refine covered _ member ?_ (by simp)
  have has : wordMatches w p = true := by
    by_contra other
    rw [asserts w (by simpa using other)] at selected
    cases selected
  simpa using wordMatches_bits.mp has

private theorem dataprocShr_covers : Covers .thumb2Generic templateSelectDataprocShr thumb32Cover :=
  covers_class "1110101-------------------------" (by simp [thumb32Cover]) fun w other =>
  by simp [templateSelectDataprocShr, other]

private theorem ldmStm_covers : Covers .thumb2Generic templateSelectLdmStm thumb32Cover :=
  covers_class "1110100--0----------------------" (by simp [thumb32Cover]) fun w other =>
  by simp [templateSelectLdmStm, other]

private theorem dataprocMim_covers : Covers .thumb2Generic templateSelectDataprocMim thumb32Cover :=
  covers_class "11110-0---------0---------------" (by simp [thumb32Cover]) fun w other =>
  by simp [templateSelectDataprocMim, other]

private theorem str_covers : Covers .thumb2Generic templateSelectStr thumb32Cover :=
  covers_class "11111000---0--------------------" (by simp [thumb32Cover]) fun w other =>
  by simp [templateSelectStr, other]

private theorem dataprocReg_covers : Covers .thumb2Generic templateSelectDataprocReg thumb32Cover :=
  covers_class "11111010------------------------" (by simp [thumb32Cover]) fun w other =>
  by simp [templateSelectDataprocReg, other]

private theorem mul_covers : Covers .thumb2Generic templateSelectMul thumb32Cover :=
  covers_class "111110110-----------------------" (by simp [thumb32Cover]) fun w other =>
  by simp [templateSelectMul, other]

private theorem mull_covers : Covers .thumb2Generic templateSelectMull thumb32Cover :=
  covers_class "111110111-----------------------" (by simp [thumb32Cover]) fun w other =>
  by simp [templateSelectMull, other]

private theorem dataprocImm_covers : Covers .thumb2Generic templateSelectDataprocImm thumb32Cover := by
  intro w selected
  have generic : wordMatches w "11110-1---------0---------------" = true ∧
      (isPc (field w 16 4) = false ∨ wordMatches (field w 20 5) "10--0" = true) := by
    unfold templateSelectDataprocImm at selected
    simp only [isBad] at selected
    grind
  obtain ⟨has, rn | op⟩ := generic
  · refine covered ⟨[Pattern.bits "11110-1---------0---------------"],
      [pcAt 16]⟩ (by simp [thumb32Cover]) ?_ ?_
    · simpa using wordMatches_bits.mp has
    · simpa using not_pcAt (by decide) rn
  · refine covered ⟨[Pattern.bits "11110-1---------0---------------",
      (Pattern.bits "10--0").shift 20], []⟩
      (by simp [thumb32Cover]) ?_ (by simp)
    simpa using ⟨wordMatches_bits.mp has,
      (wordMatches_field 20 5 (by decide) (by decide) (by decide)).mp op⟩

private theorem ldr_covers : Covers .thumb2Generic templateSelectLdr thumb32Cover := by
  intro w selected
  have generic : wordMatches w "1111100--101--------------------" = true ∧
      isPc (field w 16 4) = false := by
    unfold templateSelectLdr at selected
    grind
  refine covered ⟨[Pattern.bits "1111100--101--------------------"],
    [pcAt 16]⟩ (by simp [thumb32Cover]) ?_ ?_
  · simpa using wordMatches_bits.mp generic.1
  · simpa using not_pcAt (by decide) generic.2

private theorem miscCtrl_generic {w : BitVec 32}
    (selected : templateSelectMiscCtrl w = .template .thumb2Generic) :
    field w 20 7 = 0b0111000#7 ∨ wordMatches w "11110011111011111000----00000000" = true := by
  have msr : (field w 20 7).toNat = 56 → field w 20 7 = 0b0111000#7 :=
    fun same => BitVec.eq_of_toNat_eq same
  unfold templateSelectMiscCtrl at selected
  grind

private theorem branchMiscCtrl_covers :
    Covers .thumb2Generic templateSelectBranchMiscCtrl thumb32Cover := by
  intro w selected
  have generic : wordMatches w "11110-----------1---------------" = true ∧
      (field w 12 3 = 0b000#3 ∨ field w 12 3 = 0b010#3) ∧ templateSelectMiscCtrl w =
        .template .thumb2Generic := by
    unfold templateSelectBranchMiscCtrl at selected
    split at selected
    · cases selected
    · rename_i has
      refine ⟨by simpa using has, ?_⟩
      split at selected
      · exact ⟨.inl (BitVec.eq_of_toNat_eq ‹_›), selected⟩
      · exact ⟨.inr (BitVec.eq_of_toNat_eq ‹_›), selected⟩
      all_goals cases selected
  obtain ⟨has, kind, misc⟩ := generic
  rcases miscCtrl_generic misc with op | mrs
  · rcases kind with op1 | op1
    · refine covered ⟨[Pattern.bits "11110-----------1---------------", Bits.ofField 12 0b000#3,
        Bits.ofField 20 0b0111000#7], []⟩ (by simp [thumb32Cover]) ?_ (by simp)
      simpa [← field_eq_iff, op, op1] using wordMatches_bits.mp has
    · refine covered ⟨[Pattern.bits "11110-----------1---------------", Bits.ofField 12 0b010#3,
        Bits.ofField 20 0b0111000#7], []⟩ (by simp [thumb32Cover]) ?_ (by simp)
      simpa [← field_eq_iff, op, op1] using wordMatches_bits.mp has
  · refine covered ⟨[Pattern.bits "11110011111011111000----00000000"],
      []⟩ (by simp [thumb32Cover]) ?_ (by simp)
    simpa using wordMatches_bits.mp mrs

private theorem selectOn_cases {decoders : List (Pattern × (BitVec n → Selection))} {k : Nat}
    {key : BitVec k} {w : BitVec n}
    {template : Template} (selected : selectOn decoders key w = .template template) :
    ∃ decoder ∈ decoders, decoder.2 w = .template template := by
  unfold selectOn at selected
  split at selected
  · rename_i decode decoded
    obtain ⟨entry, found, rfl⟩ := Option.map_eq_some_iff.mp decoded
    exact ⟨entry, List.mem_of_find?_eq_some found, selected⟩
  · cases selected

private theorem thumb32_covers : Covers .thumb2Generic templateSelectThumb32 thumb32Cover := by
  intro w selected
  unfold templateSelectThumb32 at selected
  simp only at selected
  split at selected
  · cases selected
  · split at selected
    · obtain ⟨decoder, member, found⟩ := selectOn_cases selected
      simp only [List.mem_cons, List.not_mem_nil, or_false] at member
      rcases member with rfl | rfl | rfl | rfl
      · cases found
      · exact dataprocShr_covers w found
      · exact ldmStm_covers w found
      · cases found
    · split at selected
      · exact branchMiscCtrl_covers w selected
      · split at selected
        · exact dataprocMim_covers w selected
        · exact dataprocImm_covers w selected
    · obtain ⟨decoder, member, found⟩ := selectOn_cases selected
      simp only [List.mem_cons, List.not_mem_nil, or_false] at member
      rcases member with rfl | rfl | rfl | rfl | rfl | rfl | rfl | rfl | rfl
      · exact str_covers w found
      · cases found
      · cases found
      · cases found
      · exact ldr_covers w found
      · exact dataprocReg_covers w found
      · exact mul_covers w found
      · exact mull_covers w found
      · cases found
    · cases selected

private theorem thumb32_reads_no_pc {w : BitVec 32}
    (selected : templateSelectThumb32 w = .template .thumb2Generic) :
    .pc ∉ (Insn.thumb32 w).may := by
  have checked : readsNoPc 32 thumb32Reads thumb32Cover = true := by decide
  exact not_reads checked (thumb32_covers w selected)

/-! ## A64 -/

/-- The words that `template_select_a64` leaves to the verbatim template. -/
def a64Cover : List Encodings :=
  [⟨[Pattern.bits "---100--------------------------"],
    [Pattern.bits "---10000------------------------"]⟩,
   ⟨[Pattern.bits "11010100------------------------"], []⟩,
   ⟨[Pattern.bits "1101010100----------------------"], []⟩,
   ⟨[Pattern.bits "1101011-------------------------", Bits.ofField 21 0b0100#4], []⟩,
   ⟨[Pattern.bits "1101011-------------------------", Bits.ofField 21 0b0101#4], []⟩,
   ⟨[Pattern.bits "----1-0-------------------------"],
     [Pattern.bits "--011-00------------------------"]⟩,
   ⟨[Pattern.bits "----101-------------------------"], []⟩]

open A64Template in
private theorem branchExceptionSystem_generic {w : BitVec 32}
    (selected : decodeA64BranchExceptionSystem w = some .generic) :
    wordMatches w "11010100------------------------" = true ∨
    wordMatches w "1101010100----------------------" = true ∨
      (wordMatches w "1101011-------------------------" = true ∧
        (field w 21 4 = 0b0100#4 ∨ field w 21 4 = 0b0101#4)) := by
  have eret : (field w 21 4).toNat = 4 → field w 21 4 = 0b0100#4 :=
    fun same => BitVec.eq_of_toNat_eq same
  have drps : (field w 21 4).toNat = 5 → field w 21 4 = 0b0101#4 :=
    fun same => BitVec.eq_of_toNat_eq same
  unfold decodeA64BranchExceptionSystem at selected
  grind

private theorem a64_covers {w : BitVec 32} (selected : A64Template.templateSelectA64 w = some .generic) :
    ∃ e ∈ a64Cover, e.holds w := by
  have generic : (wordMatches w "---100--------------------------" = true ∧
        wordMatches w "---10000------------------------" = false) ∨
      A64Template.decodeA64BranchExceptionSystem w = some .generic ∨
      (wordMatches w "----1-0-------------------------" = true ∧
        wordMatches w "--011-00------------------------" = false) ∨
      wordMatches w "----101-------------------------" = true := by
    unfold A64Template.templateSelectA64 A64Template.decodeA64DataProcessingImmediate
      A64Template.decodeA64LoadStore
      at selected
    grind
  rcases generic with ⟨has, other⟩ | branch | ⟨has, other⟩ | has
  · refine covered ⟨[Pattern.bits "---100--------------------------"],
      [Pattern.bits "---10000------------------------"]⟩
      (by simp [a64Cover]) ?_ ?_
    · simpa using wordMatches_bits.mp has
    · simp [← wordMatches_bits, other]
  · rcases branchExceptionSystem_generic branch with has | has | ⟨has, eret | drps⟩
    · refine covered ⟨[Pattern.bits "11010100------------------------"],
        []⟩ (by simp [a64Cover]) ?_ (by simp)
      simpa using wordMatches_bits.mp has
    · refine covered ⟨[Pattern.bits "1101010100----------------------"],
        []⟩ (by simp [a64Cover]) ?_ (by simp)
      simpa using wordMatches_bits.mp has
    · refine covered ⟨[Pattern.bits "1101011-------------------------", Bits.ofField 21 0b0100#4],
        []⟩ (by simp [a64Cover])
        ?_ (by simp)
      simpa [← field_eq_iff, eret] using wordMatches_bits.mp has
    · refine covered ⟨[Pattern.bits "1101011-------------------------", Bits.ofField 21 0b0101#4],
        []⟩ (by simp [a64Cover])
        ?_ (by simp)
      simpa [← field_eq_iff, drps] using wordMatches_bits.mp has
  · refine covered ⟨[Pattern.bits "----1-0-------------------------"],
      [Pattern.bits "--011-00------------------------"]⟩
      (by simp [a64Cover]) ?_ ?_
    · simpa using wordMatches_bits.mp has
    · simp [← wordMatches_bits, other]
  · refine covered ⟨[Pattern.bits "----101-------------------------"],
      []⟩ (by simp [a64Cover]) ?_ (by simp)
    simpa using wordMatches_bits.mp has

private theorem a64_reads_no_pc {w : BitVec 32}
    (selected : A64Template.templateSelectA64 w = some .generic) :
    .pc ∉ (Insn.a64 w).may := by
  have checked : readsNoPc 32 a64Reads a64Cover = true := by decide
  exact not_reads checked (a64_covers selected)

/-! ## All instruction sets -/

/-- The selector of the instruction set leaves the instruction to its verbatim template. -/
def SelectsGeneric : Insn → Prop
  | .thumb w => templateSelectThumb w = .template .thumbGeneric
  | .thumb32 w => templateSelectThumb32 w = .template .thumb2Generic
  | .arm w => templateSelectArm w = .template .armGeneric
  | .a64 w => A64Template.templateSelectA64 w = some .generic

/-- The Thumb branches whose selection goes wrong: `blx` with a register, for
whose template the selector tests a bit that its opcode does not have, and
`bx pc`. -/
def MissedBranch : Insn → Prop
  | .thumb w => wordMatches w blxRegister = true ∨ wordMatches w bxPc = true
  | _ => False

private theorem missed_reads_pc {insn : Insn} (missed : MissedBranch insn) : .pc ∈ insn.may := by
  cases insn with
  | thumb w =>
    rcases missed with blx | bx
    · have reads : readsOf thumbReads w = ⟨[.pc], [.reg 3]⟩ := by
        have only : (thumbReads.filter fun entry => !conflict 16 blxRegister entry.1) =
          [("010001111-------", ⟨[.pc], [.reg 3]⟩)] := rfl
        have class_ : wordMatches w "010001111-------" = true := matches_of_inside blx (by decide)
        rw [readsOf, decodeWith_filter blx, only]
        simp [decodeWith, class_]
      simp [Insn.may, reads, Operand.sources]
    · have same : w &&& BitVec.allOnes 16 = 0x4778#16 := wordMatches_iff.mp bx
      rw [BitVec.and_allOnes] at same
      subst same
      decide
  | thumb32 w => exact missed.elim
  | arm w => exact missed.elim
  | a64 w => exact missed.elim

/-- An instruction that is executed verbatim does not depend on its position,
exactly if it is not one of the two Thumb branches. -/
theorem generic_position_independent_iff (insn : Insn) (selected : SelectsGeneric insn)
    (predictable : ¬insn.Unpredictable) :
    insn.PositionIndependent ↔ ¬MissedBranch insn := by
  rw [positionIndependent_iff insn predictable]
  constructor
  · intro free missed
    exact free (missed_reads_pc missed)
  · intro other
    cases insn with
    | thumb w =>
      simp only [MissedBranch, not_or, Bool.not_eq_true] at other
      exact thumb_reads_no_pc selected other.1 other.2
    | thumb32 w => exact thumb32_reads_no_pc selected
    | arm w => exact arm_reads_no_pc selected
    | a64 w => exact a64_reads_no_pc selected

/-- `add r0, r1, r2` in the ARM instruction set. -/
theorem generic_add_position_independent : (Insn.arm 0xe0810002#32).PositionIndependent := by
  apply (generic_position_independent_iff (.arm 0xe0810002#32) ?_ ?_).mpr id
  · show templateSelectArm 0xe0810002#32 = .template .armGeneric
    decide
  · unfold Insn.Unpredictable
    decide

/-- `blx r3` in the Thumb instruction set. -/
theorem generic_blx_depends_on_position :
    SelectsGeneric (.thumb 0x4798#16) ∧ ¬(Insn.thumb 0x4798#16).Unpredictable ∧
      (Insn.thumb 0x4798#16).inputs (fun _ => 0) 0x1000#64 ≠ (Insn.thumb 0x4798#16).inputs (fun _ =>
        0) 0x2000#64 := by
  refine ⟨?_, ?_, by decide⟩
  · show templateSelectThumb 0x4798#16 = .template .thumbGeneric
    decide
  · unfold Insn.Unpredictable
    decide

end Adbi.GenericProofs
