import Adbi.A64Template
import Adbi.ArmPatchProofs
import Adbi.ArmTargetProofs
import Adbi.Operands

/-! Which instructions can be taken through `template_select` and
`template_get_handler` without failing an assertion. Every ARM and 16-bit Thumb
instruction can. What an assertion of the 32-bit Thumb and of the A64 decoders
excludes is only unallocated or privileged instructions, which can all the same
stand where a tracepoint is put. -/
namespace Adbi.CompletionProofs
open Adbi.Lib Adbi.Operands Adbi.TemplateSelect Adbi.ArmTemplate Adbi.ArmPatchProofs

/-- Where an instruction of the kind can stand. -/
def Aligned (address : Word) : Kind → Prop
  | .arm => address &&& 3#32 = 0
  | .thumb | .thumb2 => address &&& 1#32 = 0

/-- On the arm server: the selector returns, and a template that it returns is filled out. -/
def Instantiates (selection : Selection) (insn : Word) (kind : Kind) : Prop :=
  match selection with
  | .template template =>
    ∀ address handler, Aligned address kind →
      (templateGetHandler template address handler insn kind).isSome = true
  | .null => True
  | .assertion => False

/-- The instruction goes through selection and instantiation without a failed assertion. -/
def Completes : Insn → Prop
  | .thumb w => Instantiates (templateSelectThumb w) (w.setWidth 32) .thumb
  | .thumb32 w => Instantiates (templateSelectThumb32 w) w .thumb2
  | .arm w => Instantiates (templateSelectArm w) w .arm
  | .a64 w =>
    ∀ template, A64Template.templateSelectA64 w = some template →
      ∀ handler pc, (A64Template.templateFillout template.code ⟨handler, pc, w⟩).isSome = true

/-- A 32-bit Thumb instruction has a first halfword that says so. -/
def ValidKind : Insn → Prop
  | .thumb32 w => isThumb2Halfword (field w 16 16) = true
  | _ => True

/-- The instructions that fail an assertion: hypervisor and monitor calls and
their unallocated neighbours, the 32-bit Thumb `blx` with the lowest bit set,
and the unallocated neighbours of the A64 conditional branch. -/
def aborts : Insn → Bool
  | .thumb32 w =>
    (wordMatches w "111101111-------10-0------------" &&
      !wordMatches w "111101111111----10-0------------") ||
      wordMatches w "11110-----------11-0-----------1"
  | .a64 w =>
    wordMatches w "0101010-------------------------" && !wordMatches w "01010100-------------------0----"
  | .thumb _ | .arm _ => false

variable {n : Nat}

/-- One decoder of a sequence, and the rest. -/
theorem selectOn_next {P : Selection → Prop} {p : Pattern} {decode : BitVec n → Selection}
    {rest : List (Pattern × (BitVec n → Selection))} {key : BitVec k} {w : BitVec n}
    (here : wordMatches key p = true → P (decode w)) (later : wordMatches key p = false →
      P (selectOn rest key w)) :
    P (selectOn ((p, decode) :: rest) key w) := by
  unfold selectOn decodeWith at *
  cases found : wordMatches key p with
  | true => simpa [found] using here found
  | false => simpa [found] using later found

/-- Whatever every decoder of a sequence returns for what it is for, the sequence returns, or `NULL`. -/
theorem selectOn_of_match {P : Selection → Prop}
    {decoders : List (Pattern × (BitVec n → Selection))} {key : BitVec k} {w : BitVec n}
    (null : P .null) (each : ∀ decoder ∈ decoders, wordMatches key decoder.1 = true →
      P (decoder.2 w)) : P (selectOn decoders key w) := by
  induction decoders with
  | nil => exact null
  | cons decoder rest ih =>
    apply selectOn_next
    · exact each decoder List.mem_cons_self
    · exact fun _ => ih fun decoder member => each decoder (List.mem_cons_of_mem _ member)

/-- Whatever every decoder of a sequence returns, the sequence returns, or `NULL`. -/
private theorem selectOn_of_each {P : Selection → Prop}
    {decoders : List (Pattern × (BitVec n → Selection))} {key : BitVec k}
    {w : BitVec n} (null : P .null) (each : ∀ decoder ∈ decoders, P (decoder.2 w)) :
    P (selectOn decoders key w) :=
  selectOn_of_match null fun decoder member _ => each decoder member

/-! ## ARM -/

/-- A selector returns `NULL` or a template for ARM. -/
def SelectsArm : Selection → Prop
  | .template template => armTemplate template = true
  | .null => True
  | .assertion => False

private theorem arm_selects (w : BitVec 32) : SelectsArm (templateSelectArm w) := by
  have dataproc : SelectsArm (decodeArmDataproc w) := by
    unfold decodeArmDataproc
    simp only
    split_ifs <;> trivial
  have loadStore : SelectsArm (decodeArmLoadStore w) := by
    unfold decodeArmLoadStore
    simp only
    split_ifs <;> trivial
  have loadStoreMultiple : SelectsArm (decodeArmLoadStoreMultiple w) := by
    unfold decodeArmLoadStoreMultiple
    simp only
    split_ifs <;> trivial
  have loadStoreExtra : SelectsArm (decodeArmLoadStoreExtra w) := by
    unfold decodeArmLoadStoreExtra
    simp only
    split_ifs <;> trivial
  have loadStoreDual : SelectsArm (decodeArmLoadStoreDual w) := by
    unfold decodeArmLoadStoreDual
    simp only
    split_ifs
    · trivial
    · trivial
    · exact loadStoreExtra
  have nopc (rn rd rs rm : Bool) : SelectsArm (decodeArmNopc rn rd rs rm w) := by
    unfold decodeArmNopc
    split_ifs <;> trivial
  have branch : SelectsArm (decodeArmBranch w) := by
    unfold decodeArmBranch
    split_ifs <;> trivial
  have null : SelectsArm .null := trivial
  have chosen (template : Template) (arm : armTemplate template = true) :
      SelectsArm (.template template) := arm
  apply selectOn_of_each null
  simp only [armDecoders, List.forall_mem_cons, List.not_mem_nil, false_imp_iff, implies_true,
    and_true, dataproc, loadStore,
    loadStoreMultiple, loadStoreExtra, loadStoreDual, nopc, branch, null, chosen .armGeneric rfl,
    chosen .bA1 rfl,
    chosen .blImmA1 rfl, chosen .blxImmA2 rfl]

private theorem arm_instantiates (w : BitVec 32) : Instantiates (templateSelectArm w) w .arm := by
  have selects := arm_selects w
  cases selected : templateSelectArm w with
  | template template =>
    rw [selected] at selects
    exact fun address handler _ => arm_completes selects address handler w
  | null => trivial
  | assertion =>
    rw [selected] at selects
    cases selects

/-! ## Thumb -/

/-- What is known of a 16-bit Thumb instruction for which a template is selected. -/
def thumbEncoded (w : BitVec 16) : Selection → Prop
  | .template .thumbGeneric | .null => True
  | .template .adrT1 => wordMatches w "10100-----------" = true
  | .template .ldrLitT1 => wordMatches w "01001-----------" = true
  | .template .bT1 => wordMatches w "1101------------" = true ∧ wordMatches w "1101111---------" = false
  | .template .bT2 => wordMatches w "11100-----------" = true
  | .template .cbzT1 => wordMatches w "1011-0-1--------" = true
  | _ => False

/-- A condition is neither of the two that no branch has. -/
private theorem conditional {w : BitVec 16} (svc : wordMatches w "11011111--------" = false)
    (udf : wordMatches w "11011110--------" = false) : wordMatches w "1101111---------" = false := by
  by_contra both
  rw [Bool.not_eq_false] at both
  have bit : ∀ b : BitVec 1, b = 0#1 ∨ b = 1#1 := by decide
  rcases bit (field w 8 1) with clear | set
  · have found : wordMatches w "11011110--------" = true :=
      matches_of_known [Pattern.bits "1101111---------", Bits.ofField 8 0#1]
        (by simpa [← field_eq_iff, clear] using wordMatches_bits.mp both) (by decide)
    rw [udf] at found
    cases found
  · have found : wordMatches w "11011111--------" = true :=
      matches_of_known [Pattern.bits "1101111---------", Bits.ofField 8 1#1]
        (by simpa [← field_eq_iff, set] using wordMatches_bits.mp both) (by decide)
    rw [svc] at found
    cases found

private theorem ldmStm_encoded (w : BitVec 16) : thumbEncoded w (decodeThumbLdmStm w) := by
  unfold decodeThumbLdmStm
  simp only
  split_ifs <;> exact True.intro

private theorem dpHrBranch_encoded (w : BitVec 16) : thumbEncoded w (decodeThumbDpHrBranch w) := by
  -- bit 7 of a two-bit opcode is clear, so that no `blx` is ever found here
  have clear : (field w 8 2).getLsbD 7 = false := BitVec.getLsbD_of_ge _ _ (by decide)
  unfold decodeThumbDpHrBranch
  simp only [clear]
  split <;> split_ifs <;> first | exact True.intro | contradiction

private theorem misc_encoded (w : BitVec 16) : thumbEncoded w (selectOn thumbMiscDecoders w w) := by
  refine selectOn_next (fun _ => True.intro) fun _ => ?_
  refine selectOn_next (fun _ => True.intro) fun _ => ?_
  refine selectOn_next (fun _ => True.intro) fun _ => ?_
  exact selectOn_next (fun cbz => cbz) fun _ => True.intro

theorem thumb_encoded (w : BitVec 16) : thumbEncoded w (templateSelectThumb w) := by
  refine selectOn_next (fun _ => True.intro) fun _ => ?_
  refine selectOn_next (fun _ => True.intro) fun _ => ?_
  refine selectOn_next (fun _ => dpHrBranch_encoded w) fun _ => ?_
  refine selectOn_next (fun ldr => ldr) fun _ => ?_
  refine selectOn_next (fun _ => True.intro) fun _ => ?_
  refine selectOn_next (fun _ => True.intro) fun _ => ?_
  refine selectOn_next (fun _ => True.intro) fun _ => ?_
  refine selectOn_next (fun _ => True.intro) fun _ => ?_
  refine selectOn_next (fun adr => adr) fun _ => ?_
  refine selectOn_next (fun _ => misc_encoded w) fun _ => ?_
  refine selectOn_next (fun _ => ldmStm_encoded w) fun _ => ?_
  refine selectOn_next (fun _ => True.intro) fun svc => ?_
  refine selectOn_next (fun _ => True.intro) fun udf => ?_
  refine selectOn_next (fun b => ⟨b, conditional svc udf⟩) fun _ => ?_
  refine selectOn_next (fun _ => True.intro) fun _ => ?_
  exact selectOn_next (fun b => b) fun _ => True.intro

private theorem thumb_instantiates (w : BitVec 16) : Instantiates (templateSelectThumb w)
    (w.setWidth 32) .thumb := by
  have encoded := thumb_encoded w
  have narrow : w.setWidth 32 >>> 16 = 0#32 := by
    apply BitVec.eq_of_toNat_eq
    have := w.isLt
    simp [Nat.shiftRight_eq_div_pow]
    omega
  cases selected : templateSelectThumb w with
  | null => trivial
  | assertion =>
    rw [selected] at encoded
    cases encoded
  | template template =>
    rw [selected] at encoded
    intro address handler _
    cases template with
    | thumbGeneric => exact thumbGeneric_completes rfl narrow
    | adrT1 =>
      exact adrT1_completes rfl ((wordMatches_setWidth w _ (by decide) (by decide)).trans encoded)
    | ldrLitT1 =>
      exact ldrLitT1_completes rfl ((wordMatches_setWidth w _ (by decide) (by decide)).trans encoded)
    | cbzT1 =>
      exact cbzT1_completes rfl ((wordMatches_setWidth w _ (by decide) (by decide)).trans encoded)
    | bT1 =>
      exact bT1_completes rfl ((wordMatches_setWidth w _ (by decide) (by decide)).trans encoded.1)
        ((wordMatches_setWidth w _ (by decide) (by decide)).trans encoded.2)
    | bT2 =>
      have b := (wordMatches_setWidth w _ (by decide) (by decide)).trans encoded
      apply values_complete
      simp [templateCode, fieldValue, b, thumbCode, bad]
    | _ => cases encoded

/-! ## Thumb, 32 bits -/

/-- What is known of a 32-bit Thumb instruction for which a template is selected. -/
def thumb32Encoded (w : BitVec 32) : Selection → Prop
  | .template .thumb2Generic | .template .thumbNop | .null => True
  | .template .adrT2 => wordMatches w "11110-10101011110---------------" = true
  | .template .adrT3 => wordMatches w "11110-10000011110---------------" = true
  | .template .ldrLitT2 =>
    wordMatches w "11111000-1011111----------------" = true ∧ isPc (field w 12 4) = false
  | .template .bT3 => wordMatches w "11110-----------10-0------------" = true
  | .template .bT4 => wordMatches w "11110-----------10-1------------" = true
  | .template .blT1 => wordMatches w "11110-----------11-1------------" = true
  | .template .blxT2 => wordMatches w "11110-----------11-0------------" = true
  | .assertion => wordMatches w "111101111-------10-0------------" = true ∧
      wordMatches w "111101111111----10-0------------" = false
  | _ => False

/-- The class of an instruction, by the highest bits and the two that follow. -/
private theorem class_known {w : BitVec 32} (valid : isThumb2Halfword (field w 16 16) = true) :
    field w 29 3 = 0b111#3 ∧ (field w 27 2 = 0b01#2 ∨ field w 27 2 = 0b10#2 ∨
      field w 27 2 = 0b11#2) := by
  unfold isThumb2Halfword at valid
  rw [show 0xf800#16 = (BitVec.allOnes 5).setWidth 16 <<< 11 by decide, and_fieldMask] at valid
  have bound := of_decide_eq_true valid
  rw [BitVec.le_def] at bound
  have := w.isLt
  simp only [field, BitVec.toNat_shiftLeft, BitVec.toNat_setWidth, BitVec.extractLsb'_toNat,
    Nat.shiftRight_eq_div_pow,
    Nat.shiftLeft_eq, BitVec.toNat_ofNat, ← BitVec.toNat_inj] at bound ⊢
  omega

variable {w : BitVec 32}

/-- An assertion that holds. -/
private theorem asserted {p : Pattern} {rest : Selection} (has : wordMatches w p = true)
    (encoded : thumb32Encoded w rest) :
    thumb32Encoded w (if !wordMatches w p then .assertion else rest) := by
  simpa [has] using encoded

private theorem dataprocShr_encoded (has : wordMatches w "1110101-------------------------" = true) :
    thumb32Encoded w (templateSelectDataprocShr w) := by
  apply asserted has
  split_ifs <;> exact True.intro

private theorem ldmStm32_encoded (has : wordMatches w "1110100--0----------------------" = true) :
    thumb32Encoded w (templateSelectLdmStm w) := by
  apply asserted has
  split_ifs <;> exact True.intro

private theorem dataprocMim_encoded (has : wordMatches w "11110-0---------0---------------" = true) :
    thumb32Encoded w (templateSelectDataprocMim w) := by
  apply asserted has
  split_ifs <;> exact True.intro

private theorem str_encoded (has : wordMatches w "11111000---0--------------------" = true) :
    thumb32Encoded w (templateSelectStr w) := by
  apply asserted has
  simp only
  split_ifs <;> exact True.intro

private theorem mul_encoded (has : wordMatches w "111110110-----------------------" = true) :
    thumb32Encoded w (templateSelectMul w) := by
  apply asserted has
  split_ifs <;> exact True.intro

private theorem mull_encoded (has : wordMatches w "111110111-----------------------" = true) :
    thumb32Encoded w (templateSelectMull w) := by
  apply asserted has
  split_ifs <;> exact True.intro

private theorem dataprocReg_encoded (has : wordMatches w "11111010------------------------" = true) :
    thumb32Encoded w (templateSelectDataprocReg w) := by
  have here := wordMatches_bits.mp has
  -- the two groups of instructions assert what their opcodes have just been seen to be
  have parallel (full : field w 12 4 = 0b1111#4) (op1 : wordMatches (field w 20 4) "1---" = true)
      (op2 : wordMatches (field w 4 4) "0---" = true) :
        wordMatches w "111110101-------1111----0-------" = true := by
    rw [wordMatches_field 20 4 (by decide) (by decide) (by decide)] at op1
    rw [wordMatches_field 4 4 (by decide) (by decide) (by decide)] at op2
    apply matches_of_known [Pattern.bits "11111010------------------------", Bits.ofField 12 0b1111#4,
      (Pattern.bits "1---").shift 20, (Pattern.bits "0---").shift 4]
    · simpa [← field_eq_iff, full] using ⟨here, op1, op2⟩
    · decide
  have misc (full : field w 12 4 = 0b1111#4) (op1 : wordMatches (field w 20 4) "10--" = true)
      (op2 : wordMatches (field w 4 4) "10--" = true) :
        wordMatches w "1111101010------1111----10------" = true := by
    rw [wordMatches_field 20 4 (by decide) (by decide) (by decide)] at op1
    rw [wordMatches_field 4 4 (by decide) (by decide) (by decide)] at op2
    apply matches_of_known [Pattern.bits "11111010------------------------", Bits.ofField 12 0b1111#4,
      (Pattern.bits "10--").shift 20, (Pattern.bits "10--").shift 4]
    · simpa [← field_eq_iff, full] using ⟨here, op1, op2⟩
    · decide
  apply asserted has
  split_ifs
  all_goals first | exact True.intro | skip
  · rename_i full _ _ op other
    rw [Bool.and_eq_true] at op
    rw [parallel (by simpa using full) op.1 op.2] at other
    cases other
  · rename_i full _ _ _ op other
    rw [Bool.and_eq_true] at op
    rw [misc (by simpa using full) op.1 op.2] at other
    cases other

private theorem isPc_iff {reg : BitVec 4} : isPc reg = true ↔ reg = 15#4 := beq_iff_eq

private theorem dataprocImm_encoded (has : wordMatches w "11110-1---------0---------------" = true) :
    thumb32Encoded w (templateSelectDataprocImm w) := by
  have outer := wordMatches_bits.mp has
  have adr (op p : Pattern) (pc : isPc (field w 16 4) =
      true) (here : wordMatches (field w 20 5) op = true)
      (mask : op.mask < 2 ^ 5) (value : op.value < 2 ^ 5)
      (inside : p.bits.inside (Encodings.known
        ⟨[Pattern.bits "11110-1---------0---------------", Bits.ofField 16 15#4, op.bits.shift 20],
          []⟩) = true) :
      wordMatches w p = true := by
    rw [wordMatches_field 20 5 (by decide) mask value] at here
    apply matches_of_known _ _ inside
    simpa [← field_eq_iff, isPc_iff.mp pc] using ⟨outer, here⟩
  apply asserted has
  split_ifs with bad op pc t3
  all_goals first | exact True.intro | skip
  · exact adr "00000" _ pc t3 (by decide) (by decide) (by decide)
  · have t2 : wordMatches (field w 20 5) "01010" = true := by
      rw [Bool.or_eq_true] at op
      exact op.resolve_left t3
    exact adr "01010" _ pc t2 (by decide) (by decide) (by decide)

private theorem ldr_encoded (has : wordMatches w "1111100--101--------------------" = true) :
    thumb32Encoded w (templateSelectLdr w) := by
  apply asserted has
  simp only
  split_ifs with zero pc rt
  all_goals first | exact True.intro | skip
  have word : wordMatches (field w 23 2) "0-" = true := by simpa using zero
  rw [wordMatches_field 23 2 (by decide) (by decide) (by decide)] at word
  refine ⟨?_, by simpa using rt⟩
  apply matches_of_known [Pattern.bits "1111100--101--------------------", Bits.ofField 16 15#4,
    (Pattern.bits "0-").shift 23]
  · simpa [← field_eq_iff, isPc_iff.mp pc] using ⟨wordMatches_bits.mp has, word⟩
  · decide

/-- The opcodes that are left to the assertion that the instruction is a branch. -/
private theorem opcode_left : ∀ op : BitVec 7, wordMatches op "-111---" = true →
    (∀ known ∈ [56, 57, 58, 59, 60, 61, 62, 63, 127], op.toNat ≠ known) →
    wordMatches op "1111---" = true ∧ wordMatches op "1111111" = false := by
  decide

private theorem miscCtrl_encoded (has : wordMatches w "11110-----------10-0------------" = true) :
    thumb32Encoded w (templateSelectMiscCtrl w) := by
  unfold templateSelectMiscCtrl
  simp only
  split
  all_goals first | exact True.intro | skip
  · split_ifs <;> exact True.intro
  · split_ifs <;> exact True.intro
  · split_ifs <;> exact True.intro
  · split_ifs <;> exact True.intro
  · split_ifs with rest
    · obtain ⟨high, other⟩ := opcode_left (field w 20 7) rest (by simp; tauto)
      rw [wordMatches_field 20 7 (by decide) (by decide) (by decide)] at high
      constructor
      · apply matches_of_known [Pattern.bits "11110-----------10-0------------",
          (Pattern.bits "1111---").shift 20]
        · simpa using ⟨wordMatches_bits.mp has, high⟩
        · decide
      · by_contra both
        have op := field_of_matches (Bool.not_eq_false _ ▸ both) 20 7 (by decide)
        rw [op] at other
        revert other
        decide
    · exact has

private theorem branchMiscCtrl_encoded (has : wordMatches w "11110-----------1---------------" = true) :
    thumb32Encoded w (templateSelectBranchMiscCtrl w) := by
  have known (kind : BitVec 3) (here : (field w 12 3).toNat = kind.toNat) (p : Pattern)
      (inside : p.bits.inside (Encodings.known
        ⟨[Pattern.bits "11110-----------1---------------", Bits.ofField 12 kind], []⟩) = true) :
        wordMatches w p = true := by
    apply matches_of_known _ _ inside
    simpa [← field_eq_iff, BitVec.eq_of_toNat_eq here] using wordMatches_bits.mp has
  apply asserted has
  split
  · rename_i here
    exact miscCtrl_encoded (known 0b000#3 here _ (by decide))
  · rename_i here
    exact miscCtrl_encoded (known 0b010#3 here _ (by decide))
  · rename_i here
    exact known 0b001#3 here _ (by decide)
  · rename_i here
    exact known 0b011#3 here _ (by decide)
  · rename_i here
    exact known 0b100#3 here _ (by decide)
  · rename_i here
    exact known 0b110#3 here _ (by decide)
  · rename_i not0 not2 not1 not3 not4 not6
    have bits : ∀ kind : BitVec 3, kind.toNat ≠ 0 → kind.toNat ≠ 2 → kind.toNat ≠ 1 →
        kind.toNat ≠ 3 → kind.toNat ≠ 4 →
        kind.toNat ≠ 6 → kind = 0b101#3 ∨ kind = 0b111#3 := by decide
    rcases bits _ not0 not2 not1 not3 not4 not6 with here | here
    · exact known 0b101#3 (congrArg _ here) _ (by decide)
    · exact known 0b111#3 (congrArg _ here) _ (by decide)

theorem thumb32_encoded (valid : isThumb2Halfword (field w 16 16) = true) :
    thumb32Encoded w (templateSelectThumb32 w) := by
  obtain ⟨high, kind⟩ := class_known valid
  have known (op p : Pattern) (kind : BitVec 2) (here : field w 27 2 =
      kind) (low : wordMatches (field w 20 7) op = true)
      (mask : op.mask < 2 ^ 7) (value : op.value < 2 ^ 7)
      (inside : p.bits.inside
        (Encodings.known ⟨[Bits.ofField 29 0b111#3, Bits.ofField 27 kind, op.bits.shift 20], []⟩) =
          true) :
      wordMatches w p = true := by
    apply matches_of_known _ _ inside
    simpa [← field_eq_iff, high, here] using (wordMatches_field 20 7 (by decide) mask value).mp low
  unfold templateSelectThumb32
  rw [if_neg (by simp [valid])]
  rcases kind with here | here | here
  · rw [here]
    refine selectOn_next (fun _ => True.intro) fun _ => ?_
    refine selectOn_next (fun op => dataprocShr_encoded ?_) fun _ => ?_
    · exact known _ _ _ here op (by decide) (by decide) (by decide)
    refine selectOn_next (fun op => ldmStm32_encoded ?_) fun _ => ?_
    · exact known _ _ _ here op (by decide) (by decide) (by decide)
    exact selectOn_next (fun _ => True.intro) fun _ => True.intro
  · have bits (top second : Bool) (p : Pattern) (fifteen : w.getLsbD 15 =
        top) (other : w.getLsbD 25 = second)
        (inside : p.bits.inside (Encodings.known ⟨[Bits.ofField 29 0b111#3, Bits.ofField 27 0b10#2,
          Bits.ofField 15 (BitVec.ofBool top), Bits.ofField 25 (BitVec.ofBool second)], []⟩) = true) :
        wordMatches w p = true := by
      apply matches_of_known _ _ inside
      subst fifteen other
      simp [← field_eq_iff, high, here, field_bit]
    have bit : wordMatches (field w 20 7) "-0-----" = !w.getLsbD 25 := by
      have every : ∀ op : BitVec 7, wordMatches op "-0-----" = !op.getLsbD 5 := by decide
      simpa [field] using every (field w 20 7)
    rw [here]
    cases fifteen : w.getLsbD 15 with
    | true =>
      cases other : w.getLsbD 25 with
      | true => exact branchMiscCtrl_encoded (bits _ _ _ fifteen other (by decide))
      | false => exact branchMiscCtrl_encoded (bits _ _ _ fifteen other (by decide))
    | false =>
      cases other : w.getLsbD 25 with
      | true =>
        rw [other] at bit
        simp only [bit]
        exact dataprocImm_encoded (bits _ _ _ fifteen other (by decide))
      | false =>
        rw [other] at bit
        simp only [bit]
        exact dataprocMim_encoded (bits _ _ _ fifteen other (by decide))
  · rw [here]
    refine selectOn_next (fun op => str_encoded ?_) fun _ => ?_
    · exact known _ _ _ here op (by decide) (by decide) (by decide)
    refine selectOn_next (fun _ => True.intro) fun _ => ?_
    refine selectOn_next (fun _ => True.intro) fun _ => ?_
    refine selectOn_next (fun _ => True.intro) fun _ => ?_
    refine selectOn_next (fun op => ldr_encoded ?_) fun _ => ?_
    · exact known _ _ _ here op (by decide) (by decide) (by decide)
    refine selectOn_next (fun op => dataprocReg_encoded ?_) fun _ => ?_
    · exact known _ _ _ here op (by decide) (by decide) (by decide)
    refine selectOn_next (fun op => mul_encoded ?_) fun _ => ?_
    · exact known _ _ _ here op (by decide) (by decide) (by decide)
    refine selectOn_next (fun op => mull_encoded ?_) fun _ => ?_
    · exact known _ _ _ here op (by decide) (by decide) (by decide)
    exact selectOn_next (fun _ => True.intro) fun _ => True.intro

/-- A `blx` is filled out if its lowest bit is clear. -/
private theorem blxT2_completes_iff {values : Values}
    (blx : wordMatches values.insn "11110-----------11-0------------" = true) :
    (templateFillout .blxT2 values).isSome = true ↔ values.insn.getLsbD 0 = false := by
  have has : wordMatches values.insn "11110-----------11--------------" = true :=
    matches_of_inside blx (by decide)
  constructor
  · intro filled
    cases bit : values.insn.getLsbD 0 with
    | false => rfl
    | true =>
      have unknown : fieldValue values .blxT2Target = none :=
        by simp only [fieldValue, bit, Bool.not_true, Bool.and_false,
        Bool.false_and, Bool.false_eq_true, if_false]
      simp [templateFillout, templateCode, fillField, unknown] at filled
  · intro even
    have aligned := ArmTargetProofs.blx_target_aligned values.pc even
    have target : (fieldValue values .blxT2Target).isSome = true := by
      simp only [fieldValue, has, even, aligned, Bool.not_false, Bool.and_self, decide_true,
        ↓reduceIte, Option.isSome_some]
    apply values_complete
    simp [templateCode, target, thumbCode, bad]
    simp [fieldValue]

/-- A field matches what is inside a pattern that the word matches. -/
private theorem field_matches {p : Pattern} (has : wordMatches w p = true) (low k : Nat)
    (q : Pattern) (fits : low + k ≤ 32)
    (mask : q.mask < 2 ^ k) (value : q.value < 2 ^ k)
    (inside : (q.bits.shift low).inside p.bits = true) :
    wordMatches (field w low k) q = true := by
  rw [wordMatches_field low k fits mask value]
  exact Bits.of_inside (wordMatches_bits.mp has) inside

private theorem selects_branchMiscCtrl (valid : isThumb2Halfword (field w 16 16) = true)
    (has : wordMatches w "11110-----------1---------------" = true) :
    templateSelectThumb32 w = templateSelectBranchMiscCtrl w := by
  have kind : field w 27 2 = 0b10#2 := field_of_matches has 27 2 (by decide)
  have fifteen : w.getLsbD 15 = true := field_bit_iff.mp (field_of_matches has 15 1 (by decide))
  simp only [templateSelectThumb32, valid, kind, fifteen]
  rfl

/-- The unexpected privileged instructions fail the assertion of the selector. -/
private theorem selects_assertion (valid : isThumb2Halfword (field w 16 16) = true)
    (call : wordMatches w "111101111-------10-0------------" = true)
    (allocated : wordMatches w "111101111111----10-0------------" = false) :
    templateSelectThumb32 w = .assertion := by
  have has : wordMatches w "11110-----------1---------------" = true :=
    matches_of_inside call (by decide)
  have op1 : ∀ k : BitVec 3, wordMatches k "0-0" = true → k = 0b000#3 ∨ k = 0b010#3 := by decide
  have op : ∀ op : BitVec 7, wordMatches op "1111---" = true → op ≠ 127#7 →
      op.toNat ∈ [120, 121, 122, 123, 124, 125, 126] ∧ wordMatches op "-111---" = true := by decide
  have misc : templateSelectMiscCtrl w = .assertion := by
    have other : field w 20 7 ≠ 127#7 := by
      intro all
      have found : wordMatches w "111101111111----10-0------------" = true := by
        apply matches_of_known [Pattern.bits "111101111-------10-0------------", Bits.ofField 20 127#7]
        · simpa [← field_eq_iff, all] using wordMatches_bits.mp call
        · decide
      rw [allocated] at found
      cases found
    obtain ⟨member, rest⟩ := op (field w 20 7)
      (field_matches call 20 7 _ (by decide) (by decide) (by decide) (by decide)) other
    unfold templateSelectMiscCtrl
    simp only [List.mem_cons, List.not_mem_nil, or_false] at member
    rcases member with is | is | is | is | is | is | is <;> simp [is, rest]
  rw [selects_branchMiscCtrl valid has]
  unfold templateSelectBranchMiscCtrl
  rcases op1 (field w 12 3)
    (field_matches call 12 3 _ (by decide) (by decide) (by decide) (by decide)) with is | is
  · simp [has, is, misc]
  · simp [has, is, misc]

private theorem selects_blx (valid : isThumb2Halfword (field w 16 16) = true)
    (blx : wordMatches w "11110-----------11-0------------" = true) :
    templateSelectThumb32 w = .template .blxT2 := by
  have has : wordMatches w "11110-----------1---------------" = true := matches_of_inside blx (by decide)
  have op1 : ∀ k : BitVec 3, wordMatches k "1-0" = true → k = 0b100#3 ∨ k = 0b110#3 := by decide
  rw [selects_branchMiscCtrl valid has]
  unfold templateSelectBranchMiscCtrl
  rcases op1 (field w 12 3)
    (field_matches blx 12 3 _ (by decide) (by decide) (by decide) (by decide)) with is | is
  · simp [has, is]
  · simp [has, is]

/-- The lowest bit of a `blx`. -/
private theorem odd_blx_iff :
    wordMatches w "11110-----------11-0-----------1" = true ↔
      wordMatches w "11110-----------11-0------------" = true ∧ w.getLsbD 0 = true := by
  constructor
  · intro odd
    refine ⟨matches_of_inside odd (by decide), ?_⟩
    exact field_bit_iff.mp (field_of_matches odd 0 1 (by decide))
  · rintro ⟨blx, odd⟩
    apply matches_of_known [Pattern.bits "11110-----------11-0------------", Bits.ofField 0 1#1]
    · have bit : field w 0 1 = 1#1 := field_bit_iff.mpr odd
      simpa [← field_eq_iff, bit] using wordMatches_bits.mp blx
    · decide

private theorem thumb32_instantiates_iff (valid : isThumb2Halfword (field w 16 16) = true) :
    Instantiates (templateSelectThumb32 w) w .thumb2 ↔ aborts (.thumb32 w) = false := by
  constructor
  · intro completes
    by_contra aborting
    simp only [aborts, Bool.not_eq_false, Bool.or_eq_true, Bool.and_eq_true,
      Bool.not_eq_true'] at aborting
    rcases aborting with ⟨call, allocated⟩ | odd
    · rw [selects_assertion valid call allocated] at completes
      exact completes
    · obtain ⟨blx, set⟩ := odd_blx_iff.mp odd
      rw [selects_blx valid blx] at completes
      have filled := (blxT2_completes_iff blx).mp (completes 0 0 rfl)
      rw [set] at filled
      cases filled
  · intro aborting
    simp only [aborts, Bool.or_eq_false_iff] at aborting
    have encoded := thumb32_encoded valid
    cases selected : templateSelectThumb32 w with
    | null => trivial
    | assertion =>
      rw [selected] at encoded
      simp [encoded.1, encoded.2] at aborting
    | template template =>
      rw [selected] at encoded
      intro address handler _
      cases template with
      | thumb2Generic => exact thumb2Generic_completes rfl
      | adrT2 => exact adrT2_completes rfl encoded
      | adrT3 => exact adrT3_completes rfl encoded
      | ldrLitT2 => exact ldrLitT2_completes rfl encoded.1
      | bT3 => exact bT3_completes rfl encoded
      | blxT2 =>
        refine (blxT2_completes_iff ?_).mpr ?_
        · exact encoded
        by_contra odd
        rw [Bool.not_eq_false] at odd
        rw [odd_blx_iff.mpr ⟨encoded, odd⟩] at aborting
        exact absurd aborting.2 (by decide)
      | bT4 | blT1 | thumbNop =>
        apply values_complete
        simp [templateCode, fieldValue, thumbCode, bad]
      | _ => cases encoded

/-! ## A64 -/

section
open A64Template

/-- What a field asserts of the instruction. -/
def fillable (insn : BitVec 32) : A64Template.Field → Bool
  | .patchCond => wordMatches insn "01010100-------------------0----"
  | .patchB40ToB40 => wordMatches insn "-011011-------------------------"
  | _ => true

private theorem fillField_isSome (values : A64Template.Values) (words : List A64.Word)
    (offset : Nat) (kind : A64Template.Field) :
    (A64Template.fillField values words offset kind).isSome = fillable values.insn kind := by
  cases kind with
  | patchCond =>
    simp only [A64Template.fillField, fillable]
    split <;> simp_all
  | patchB40ToB40 =>
    simp only [A64Template.fillField, fillable]
    split <;> simp_all
  | _ => rfl

/-- A template is filled out if all its fields are. -/
private theorem fillout_isSome_iff (values : A64Template.Values)
    (fields : List (A64Template.Field × Nat)) (words : List A64.Word) :
    (fields.foldlM (fun words field => A64Template.fillField values words field.2 field.1)
      words).isSome = true ↔
      ∀ field ∈ fields, fillable values.insn field.1 = true := by
  induction fields generalizing words with
  | nil => simp
  | cons field rest ih =>
    rw [List.foldlM_cons, List.forall_mem_cons, ← fillField_isSome values words field.2 field.1]
    cases filled : A64Template.fillField values words field.2 field.1 with
    | none => simp
    | some next => simpa using ih next

/-- The templates with fields that assert something. -/
private theorem asserting_templates (template : A64Template.Template) :
    ∀ field ∈ template.code.fields,
      (field.1 = .patchCond → template = .bCond) ∧ (field.1 = .patchB40ToB40 → template = .tbnz) := by
  cases template <;> decide

private theorem tbnz_encoded (selected : templateSelectA64 w = some .tbnz) :
    wordMatches w "-011011-------------------------" = true := by
  unfold templateSelectA64 decodeA64DataProcessingImmediate decodeA64BranchExceptionSystem
    decodeA64LoadStore at selected
  grind

private theorem bCond_encoded (selected : templateSelectA64 w = some .bCond) :
    wordMatches w "0101010-------------------------" = true := by
  unfold templateSelectA64 decodeA64DataProcessingImmediate decodeA64BranchExceptionSystem
    decodeA64LoadStore at selected
  grind

private theorem selects_bCond (b : wordMatches w "0101010-------------------------" = true) :
    templateSelectA64 w = some .bCond := by
  have branch : wordMatches w "---101--------------------------" = true :=
    matches_of_inside b (by decide)
  unfold templateSelectA64 decodeA64BranchExceptionSystem
  simp [branch, b, not_matches_of_conflict (q := "---00---------------------------") b (by decide),
    not_matches_of_conflict (q := "---100--------------------------") b (by decide),
    not_matches_of_conflict (q := "-00101--------------------------") b (by decide),
    not_matches_of_conflict (q := "-011010-------------------------") b (by decide),
    not_matches_of_conflict (q := "-011011-------------------------") b (by decide)]

private theorem a64_completes_iff :
    (∀ template, templateSelectA64 w = some template → ∀ handler pc,
      (A64Template.templateFillout template.code ⟨handler, pc, w⟩).isSome = true) ↔
      aborts (.a64 w) = false := by
  constructor
  · intro completes
    by_contra aborting
    simp only [aborts, Bool.not_eq_false, Bool.and_eq_true, Bool.not_eq_true'] at aborting
    have filled := completes .bCond (selects_bCond aborting.1) 0 0
    have fills := (fillout_isSome_iff _ _ _).mp filled (.patchCond, 0) (by simp [Template.code])
    simp only [fillable, aborting.2] at fills
    cases fills
  · intro aborting template selected handler pc
    refine (fillout_isSome_iff _ _ _).mpr ?_
    intro field member
    obtain ⟨cond, bit⟩ := asserting_templates template field member
    cases kind : field.1 with
    | patchCond =>
      obtain rfl := cond kind
      simpa [aborts, fillable, bCond_encoded selected] using aborting
    | patchB40ToB40 =>
      obtain rfl := bit kind
      exact tbnz_encoded selected
    | _ => rfl

end

/-- Selection and instantiation fail no assertion, exactly if the instruction is
none of those that the decoders do not expect. -/
theorem instantiation_completes_iff (insn : Insn) (valid : ValidKind insn) : Completes insn ↔
    aborts insn = false := by
  cases insn with
  | thumb w => exact iff_of_true (thumb_instantiates w) rfl
  | thumb32 w => exact thumb32_instantiates_iff valid
  | arm w => exact iff_of_true (arm_instantiates w) rfl
  | a64 w => exact a64_completes_iff

/-- A `cbz` is filled out at any even address. -/
theorem cbz_completes : Completes (.thumb 0xb108#16) :=
  (instantiation_completes_iff (.thumb 0xb108#16) trivial).mpr rfl

/-- A hypervisor call in 32-bit Thumb code, with a valid first halfword. -/
theorem hvc_fails_assertion :
    ValidKind (.thumb32 0xf7e08000#32) ∧ templateSelectThumb32 0xf7e08000#32 = .assertion ∧
      ¬Completes (.thumb32 0xf7e08000#32) := by
  have selected : templateSelectThumb32 0xf7e08000#32 = .assertion := by decide
  refine ⟨?_, selected, ?_⟩
  · show isThumb2Halfword (field 0xf7e08000#32 16 16) = true
    decide
  · intro completes
    have instantiates : Instantiates (templateSelectThumb32 0xf7e08000#32) 0xf7e08000#32 .thumb2 :=
      completes
    rwa [selected] at instantiates

end Adbi.CompletionProofs
