import Adbi.ArmFillProofs

/-! What is in the templates of `arch/arm` for data processing instructions after they
have been filled out: the code is a list of words, and each field of a template
changes one of them. -/
namespace Adbi.DpFillProofs
open Adbi.Lib Adbi.TemplateSelect Adbi.ArmTemplate Adbi.ArmPatchProofs Adbi.ArmFillProofs

/-- Where the fields of the registers stand in an ARM instruction. -/
def position : Reg → Nat
  | .rd | .rt => 12
  | .rm => 0
  | .rn => 16

/-- An instruction with another register. -/
def setReg (low : Nat) (w : Word) (r : BitVec 4) : Word :=
  patch (0xf#32 <<< low) w (r.setWidth 32 <<< low)

/-- The temporary register for an instruction. -/
def temporary (insn : Word) : BitVec 4 :=
  field ((selectTemporaryReg insn (getInsnMasks insn .arm)).getD 0#32) 0 4

/-! ## Registers -/

section Registers

variable {w : Word} {r : BitVec 4}

theorem field_setReg_same {low : Nat} (inside : low + 4 ≤ 32) : field (setReg low w r) low 4 = r := by
  have covered : field (0xf#32 <<< low) low 4 = BitVec.allOnes 4 := by
    rw [show 0xf#32 = (0xf#4).setWidth 32 by decide, field_shifted _ _ inside]
    decide
  rw [setReg, field_patch_inside low 4 covered, field_shifted _ _ inside]

theorem field_setReg_apart {low from_ k : Nat} (fits : from_ + k ≤ 32)
    (apart : from_ + k ≤ low ∨ low + 4 ≤ from_) :
    field (setReg low w r) from_ k = field w from_ k := by
  refine field_patch_outside from_ k fits ?_
  rw [show 0xf#32 = (0xf#4).setWidth 32 by decide]
  exact field_shifted_apart _ _ _ _ apart

theorem matches_setReg {p : Pattern} {low : Nat}
    (apart : BitVec.ofNat 32 p.mask &&& 0xf#32 <<< low = 0) :
    wordMatches (setReg low w r) p = wordMatches w p := matches_patch apart

theorem getLsbD_setReg_apart {low i : Nat} (fits : i < 32) (apart : i < low ∨ low + 4 ≤ i) :
    (setReg low w r).getLsbD i = w.getLsbD i := by
  have here : field (setReg low w r) i 1 = field w i 1 := field_setReg_apart (by omega) (by omega)
  rw [field_bit w] at here
  exact field_bit_iff.mp here

private theorem register_mask (insn : Word) (d : Reg) :
    (getInsnMasks insn .arm).of d = 0xf#32 <<< position d := by
  cases d <;> rfl

private theorem register_field (d : Reg) : FieldMask (0xf#32 <<< position d) (position d) 4 := by
  cases d <;> decide

private theorem position_inside (d : Reg) : position d + 4 ≤ 32 := by
  cases d <;> decide

/-- The temporary register is a low one that the instruction does not name. -/
theorem temporary_apart (insn : Word) :
    (temporary insn).toNat < 8 ∧ temporary insn ≠ field insn 12 4 ∧
    temporary insn ≠ field insn 16 4 ∧ temporary insn ≠ field insn 0 4 := by
  obtain ⟨rc, found⟩ := Option.isSome_iff_exists.mp
    (selectTemporaryReg_isSome insn (getInsnMasks insn .arm))
  have is : temporary insn = field rc 0 4 := by rw [temporary, found, Option.getD_some]
  have low : rc.toNat < 8 := by
    have listed := List.mem_of_find?_eq_some found
    simp only [List.mem_cons, List.not_mem_nil, or_false] at listed
    rcases listed with rfl | rfl | rfl | rfl | rfl | rfl | rfl | rfl <;> decide
  have value : (field rc 0 4).toNat = rc.toNat := by
    rw [field, BitVec.extractLsb'_toNat, Nat.shiftRight_zero]
    exact Nat.mod_eq_of_lt (by omega)
  have named (d : Reg) : getBitsByMask insn ((getInsnMasks insn .arm).of d) =
      (field insn (position d) 4).setWidth 32 := by
    rw [register_mask, getBitsByMask_field (register_field d) (position_inside d)]
  have other (d : Reg) (differs : rc ≠ getBitsByMask insn ((getInsnMasks insn .arm).of d)) :
      temporary insn ≠ field insn (position d) 4 := by
    rw [named d] at differs
    rw [is]
    intro same
    refine differs (BitVec.eq_of_toNat_eq ?_)
    rw [← same, BitVec.toNat_setWidth, value]
    omega
  have apart := List.find?_some found
  have masked : (getInsnMasks insn .arm).rd ≠ 0 := by
    rw [show (getInsnMasks insn .arm).rd = 0x0000f000#32 from rfl]
    decide
  simp only [masked, ne_eq, not_false_eq_true, ↓reduceIte, Bool.and_eq_true, decide_eq_true_eq] at apart
  obtain ⟨⟨⟨rd, -⟩, rn⟩, rm⟩ := apart
  exact ⟨by rw [is, value]; exact low, other .rd rd, other .rn rn, other .rm rm⟩

end Registers

/-! ## Filling words -/

/-- What a field makes of the word at its offset. -/
def filledWord (values : Values) : Field → Word → Word
  | .insn, _ => values.insn
  | .patchCond, w => conditionally values.insn w
  | .patch d s, w => setReg (position d) w (field values.insn (position s) 4)
  | .patchTemporary d, w => setReg (position d) w (temporary values.insn)
  | kind, _ => (fieldValue values kind).getD 0#32

/-- What the fields make of the words. -/
def filledWords (values : Values) (fields : List (Field × Nat)) (words : List Word) : List Word :=
  fields.foldl (fun words field =>
    words.set (field.2 / 4) (filledWord values field.1 (words.getD (field.2 / 4) 0#32))) words

variable {values : Values} {words : List Word} {k : Nat}

private theorem fill_patched {w : Word} {kind : Field} {insn mask : Word} (arm : values.kind = .arm)
    (there : words[k]? = some w)
    (patches : fillField values (armCode words 0) (4 * k) kind =
      patchInsn values (armCode words 0) (4 * k) kind)
    (ran : patchedInsn values w .arm kind = some (insn, mask)) :
    fillField values (armCode words 0)
    (4 * k) kind = some (armCode (words.set k (patch mask w insn)) 0) := by
  have inside := (List.getElem?_eq_some_iff.mp there).1
  simp only [patches, patchInsn, templateInsn, arm, readU32_armCode there, ran, Option.bind_some]
  exact insertU32_armCode inside _

private theorem fill_word {kind : Field} {w : Word} (arm : values.kind = .arm)
    (listed : armField kind = true) (there : words[k]? = some w) :
    fillField values (armCode words 0)
    (4 * k) kind = some (armCode (words.set k (filledWord values kind w)) 0) := by
  have inside := (List.getElem?_eq_some_iff.mp there).1
  cases kind with
  | insn =>
    simp only [fillField, arm]
    exact insertU32_armCode inside _
  | patchCond => exact fill_cond arm there
  | patch d s =>
    have copied := patchByMask_field values.insn w (register_field s) (position_inside s)
      (register_field d) (position_inside d)
      (by cases s <;> cases d <;> rfl)
    have ran : patchedInsn values w .arm (.patch d s) = some ((w &&& ~~~(0xf#32 <<< position d)) |||
        ((field values.insn (position s) 4).setWidth 32 <<< position d), 0xf#32 <<< position d) := by
      simp only [patchedInsn, arm, register_mask, copied, Option.map_some]
    rw [fill_patched arm there rfl ran, patch_or]
    rfl
  | patchTemporary d =>
    obtain ⟨rc, found⟩ := Option.isSome_iff_exists.mp
      (selectTemporaryReg_isSome values.insn (getInsnMasks w .arm))
    have is : temporary values.insn = field rc 0 4 := by
      rw [temporary, show getInsnMasks values.insn .arm = getInsnMasks w .arm from rfl, found,
        Option.getD_some]
    have four : bitsCount (0xf#32 <<< position d) = 4 := by cases d <;> decide
    have copied := patchByMask_field rc w (show FieldMask (bitMask 0 3) 0 4 by decide) (by decide)
      (register_field d) (position_inside d)
      (by rw [four]; decide)
    have ran : patchedInsn values w .arm (.patchTemporary d) =
        some ((w &&& ~~~(0xf#32 <<< position d)) |||
        ((field rc 0 4).setWidth 32 <<< position d), 0xf#32 <<< position d) := by
      simp only [patchedInsn, register_mask, four, found, Option.bind_some, OfNat.ofNat_ne_zero,
        ↓reduceIte, copied, Option.map_some]
    rw [fill_patched arm there rfl ran, patch_or, ← is]
    rfl
  | handlerAddress | origPc | readPc | nextPc | bA1Target | blImmA1Target | blxImmA2Target =>
    exact fill_constant rfl there
  | _ => cases listed

/-- Filling out an ARM template changes its words one by one. -/
theorem fillout_words (words : List Word) (arm : values.kind = .arm) (fields : List (Field × Nat))
    (each : ∀ field ∈ fields, armField field.1 = true ∧ field.2 % 4 = 0 ∧ field.2 / 4 < words.length) :
    fields.foldlM (fun code field => fillField values code field.2 field.1) (armCode words 0) =
      some (armCode (filledWords values fields words) 0) := by
  induction fields generalizing words with
  | nil => rfl
  | cons field rest ih =>
    obtain ⟨kind, offset⟩ := field
    obtain ⟨listed, whole, inside⟩ := each _ List.mem_cons_self
    obtain ⟨w, there⟩ : ∃ w, words[offset / 4]? = some w := ⟨_, List.getElem?_eq_getElem inside⟩
    have filled := fill_word arm listed there
    rw [show 4 * (offset / 4) = offset by omega] at filled
    rw [fillout_next filled, ih _ fun field member => by
      rw [List.length_set]
      exact each field (List.mem_cons_of_mem _ member)]
    simp only [filledWords, List.foldl_cons, List.getD_eq_getElem?_getD, there, Option.getD_some]

/-! ## The templates -/

/-- The templates for data processing instructions. -/
def dpTemplate : Template → Bool
  | .armGeneric | .armDpRn | .armDpRm | .armDpRnRm | .armDpRn2 | .armDpRm2 | .armDpRnRm2 => true
  | .armDpRdRn | .armDpRdRm | .armDpRdRnRm => true
  | _ => false

/-- The instruction with the registers that the template has for the pc. -/
def replaced (w : Word) : Template → Word
  | .armDpRn => setReg 16 w (field w 12 4)
  | .armDpRm => setReg 0 w (field w 12 4)
  | .armDpRnRm => setReg 16 (setReg 0 w (field w 12 4)) (field w 12 4)
  | .armDpRn2 => setReg 16 w (temporary w)
  | .armDpRm2 => setReg 0 w (temporary w)
  | .armDpRnRm2 => setReg 16 (setReg 0 w (temporary w)) (temporary w)
  | .armDpRdRn => setReg 16 (setReg 12 w (temporary w)) (temporary w)
  | .armDpRdRm => setReg 0 (setReg 12 w (temporary w)) (temporary w)
  | .armDpRdRnRm => setReg 16 (setReg 0 (setReg 12 w (temporary w)) (temporary w)) (temporary w)
  | _ => w

/-- A template that loads the pc into the register of the result. -/
def loadingWords (pc handler w load : Word) (template : Template) : List Word :=
  [setReg 12 (conditionally w load) (field w 12 4), replaced w template, 0xe51ff004#32, pc + 4#32,
    pc + 8#32, handler, pc]

/-- A template that saves a register and loads the pc into it. -/
def savingWords (pc handler w : Word) (template : Template) : List Word :=
  [conditionally w 0xea000000#32, 0xe59ff010#32, setReg 12 0xe52d3004#32 (temporary w),
    setReg 12 0xe59f300c#32 (temporary w),
    replaced w template, setReg 12 0xe49d3004#32 (temporary w), 0xe51ff004#32, pc + 4#32,
    pc + 8#32, handler, pc]

/-- A template that saves a register, computes the pc in it and loads the pc from the stack. -/
def computingWords (pc handler w : Word) (template : Template) : List Word :=
  [conditionally w 0xea000000#32, 0xe59ff018#32, 0xe24dd004#32, setReg 12 0xe52d3004#32 (temporary w),
    setReg 12 0xe59f3010#32 (temporary w), replaced w template, setReg 12 0xe58d3004#32 (temporary w),
    setReg 12 0xe49d3004#32 (temporary w), 0xe49df004#32, pc + 4#32, pc + 8#32, handler, pc]

def dpWords (pc handler w : Word) : Template → List Word
  | .armDpRn => loadingWords pc handler w 0xe59f0008#32 .armDpRn
  | .armDpRm => loadingWords pc handler w 0xe59f1008#32 .armDpRm
  | .armDpRnRm => loadingWords pc handler w 0xe59f1008#32 .armDpRnRm
  | .armDpRn2 => savingWords pc handler w .armDpRn2
  | .armDpRm2 => savingWords pc handler w .armDpRm2
  | .armDpRnRm2 => savingWords pc handler w .armDpRnRm2
  | .armDpRdRn => computingWords pc handler w .armDpRdRn
  | .armDpRdRm => computingWords pc handler w .armDpRdRm
  | .armDpRdRnRm => computingWords pc handler w .armDpRdRnRm
  | _ => [w, 0xe51ff004#32, pc + 4#32, handler, pc]

private abbrev badWord : Word := 0xbaadf00d#32

theorem filled_dp (pc handler w : Word) {template : Template} (dp : dpTemplate template = true) :
    templateGetHandler template pc handler w .arm =
      some (armCode (dpWords pc handler w template) 0) := by
  cases template with
  | armGeneric =>
    exact (fillout_words [0xe320f000#32, 0xe51ff004#32, badWord, badWord,
      badWord] rfl (templateCode .armGeneric).fields
      (by decide)).trans rfl
  | armDpRn =>
    exact (fillout_words [0xe59f0008#32, 0xe2800000#32, 0xe51ff004#32, badWord, badWord,
      badWord, badWord] rfl
      (templateCode .armDpRn).fields (by decide)).trans rfl
  | armDpRm =>
    exact (fillout_words [0xe59f1008#32, 0xe0800001#32, 0xe51ff004#32, badWord, badWord,
      badWord, badWord] rfl
      (templateCode .armDpRm).fields (by decide)).trans rfl
  | armDpRnRm =>
    exact (fillout_words [0xe59f1008#32, 0xe0800001#32, 0xe51ff004#32, badWord, badWord,
      badWord, badWord] rfl
      (templateCode .armDpRnRm).fields (by decide)).trans rfl
  | armDpRn2 =>
    exact (fillout_words [0xea000000#32, 0xe59ff010#32, 0xe52d3004#32, 0xe59f300c#32, 0xe0830000#32,
      0xe49d3004#32,
      0xe51ff004#32, badWord, badWord, badWord, badWord] rfl (templateCode .armDpRn2).fields
        (by decide)).trans rfl
  | armDpRm2 =>
    exact (fillout_words [0xea000000#32, 0xe59ff010#32, 0xe52d3004#32, 0xe59f300c#32, 0xe0800003#32,
      0xe49d3004#32,
      0xe51ff004#32, badWord, badWord, badWord, badWord] rfl (templateCode .armDpRm2).fields
        (by decide)).trans rfl
  | armDpRnRm2 =>
    exact (fillout_words [0xea000000#32, 0xe59ff010#32, 0xe52d3004#32, 0xe59f300c#32, 0xe0830003#32,
      0xe49d3004#32,
      0xe51ff004#32, badWord, badWord, badWord, badWord] rfl (templateCode .armDpRnRm2).fields
        (by decide)).trans rfl
  | armDpRdRn =>
    exact (fillout_words [0xea000000#32, 0xe59ff018#32, 0xe24dd004#32, 0xe52d3004#32, 0xe59f3010#32,
      0xe0833000#32,
      0xe58d3004#32, 0xe49d3004#32, 0xe49df004#32, badWord, badWord, badWord,
      badWord] rfl (templateCode .armDpRdRn).fields
      (by decide)).trans rfl
  | armDpRdRm =>
    exact (fillout_words [0xea000000#32, 0xe59ff018#32, 0xe24dd004#32, 0xe52d3004#32, 0xe59f3010#32,
      0xe0803003#32,
      0xe58d3004#32, 0xe49d3004#32, 0xe49df004#32, badWord, badWord, badWord,
      badWord] rfl (templateCode .armDpRdRm).fields
      (by decide)).trans rfl
  | armDpRdRnRm =>
    exact (fillout_words [0xea000000#32, 0xe59ff018#32, 0xe24dd004#32, 0xe52d3004#32, 0xe59f3010#32,
      0xe0833003#32,
      0xe58d3004#32, 0xe49d3004#32, 0xe49df004#32, badWord, badWord, badWord,
      badWord] rfl (templateCode .armDpRdRnRm).fields
      (by decide)).trans rfl
  | _ => cases dp

end Adbi.DpFillProofs
