import Adbi.A64Template

/-! Executing an A64 instruction out of line: the filled out template does what
the instruction does at its own address, but for the scratch register of the
template for `blr x30`. -/
namespace Adbi.A64TemplateProofs
open Adbi.Lib Adbi.A64 Adbi.A64Template

variable {w : Word} {s s' : State} {base pc : Address} {words : List Word} {sites : List (Nat × Address)}

/-! ## Displacements -/

private theorem addDisplacement_eq (dst imm sign extension : BitVec 64) :
    addDisplacement dst imm sign extension = dst + if imm &&& sign != 0 then imm ||| extension
      else imm := by
  unfold addDisplacement
  split
  · have negated : ~~~(imm ||| extension) + 1 = -(imm ||| extension) := (BitVec.neg_eq_not_add _).symm
    rw [negated, BitVec.sub_eq_add_neg, BitVec.neg_neg]
  · rfl

private theorem imm26_eq (w : Word) : imm26 w = (field w 0 26 ++ 0#2).setWidth 64 := by
  unfold imm26
  rw [show 0x03ffffff#32 = (BitVec.allOnes 26).setWidth 32 <<< 0 by decide, and_fieldMask]
  ext i h
  simp
  grind

private theorem imm19_eq (w : Word) : imm19 w = (field w 5 19 ++ 0#2).setWidth 64 := by
  unfold imm19
  rw [show 0x00ffffe0#32 = (BitVec.allOnes 19).setWidth 32 <<< 5 by decide, and_fieldMask]
  ext i h
  simp
  grind

private theorem imm14_eq (w : Word) : imm14 w = (field w 5 14 ++ 0#2).setWidth 64 := by
  unfold imm14
  rw [show 0x0007ffe0#32 = (BitVec.allOnes 14).setWidth 32 <<< 5 by decide, and_fieldMask]
  ext i h
  simp
  grind

@[simp] private theorem displacement26 (pc : Address) (w : Word) :
    addDisplacement pc (imm26 w) 0x08000000#64 0xfffffffff8000000#64 =
      branchTarget pc (field w 0 26) := by
  rw [addDisplacement_eq, imm26_eq, branchTarget, ← signExtend_by_or _ 64 (by decide) (by decide)]
  rfl

@[simp] private theorem displacement19 (pc : Address) (w : Word) :
    addDisplacement pc (imm19 w) 0x00100000#64 0xfffffffffff00000#64 =
      branchTarget pc (field w 5 19) := by
  rw [addDisplacement_eq, imm19_eq, branchTarget, ← signExtend_by_or _ 64 (by decide) (by decide)]
  rfl

@[simp] private theorem displacement14 (pc : Address) (w : Word) :
    addDisplacement pc (imm14 w) 0x00008000#64 0xffffffffffff8000#64 =
      branchTarget pc (field w 5 14) := by
  rw [addDisplacement_eq, imm14_eq, branchTarget, ← signExtend_by_or _ 64 (by decide) (by decide)]
  rfl

private theorem topBit (w : Word) : (w &&& 0x80000000#32 != 0) = w.getLsbD 31 := by
  rw [show 0x80000000#32 = (BitVec.allOnes 1).setWidth 32 <<< 31 by decide, and_fieldMask]
  cases top : w.getLsbD 31 with
  | false =>
    simp
    ext i h
    simp [field]
    grind
  | true =>
    simp
    intro zero
    have here := congrArg (·.getLsbD 31) zero
    simp [field] at here
    grind

/-- The constant of the `adr` template is what the instruction computes. -/
private theorem adrpResult_eq (pc : Address) (w : Word) : adrpResult pc w = adrResult pc w := by
  have imm : (((w &&& 0x00ffffe0#32) >>> 3) ||| ((w &&& 0x60000000#32) >>> 29)).setWidth 64 =
      (field w 5 19 ++ field w 29 2).setWidth 64 := by
    rw [show 0x00ffffe0#32 = (BitVec.allOnes 19).setWidth 32 <<< 5 by decide, and_fieldMask,
      show 0x60000000#32 = (BitVec.allOnes 2).setWidth 32 <<< 29 by decide, and_fieldMask]
    ext i h
    simp [field]
    grind
  unfold adrpResult adrResult
  rw [imm, topBit, ← signExtend_by_or (field w 5 19 ++ field w 29 2) 64 (by decide) (by decide)]
  rfl

/-! ## Constants and return sites -/

private theorem field_halves (v : BitVec 64) : field v 32 32 ++ field v 0 32 = v := by
  ext i h
  simp only [field, BitVec.getElem_append]
  grind

/-- How many bytes of the template a field is filled into. -/
def size : A64Template.Field → Nat
  | .handlerAddress | .nextPc | .adrpResult | .relativeImm19Addr | .relativeImm26Addr => 8
  | .handlerReturn | .handlerReturnToImm26 | .handlerReturnToImm19 | .handlerReturnToImm14 => 0
  | _ => 4

/-- The fields are words of the template, and no other field is in the place of a constant. -/
structure Laid (template : Code) : Prop where
  aligned : ∀ entry ∈ template.fields, entry.2 % 4 = 0
  inside : ∀ entry ∈ template.fields, entry.2 + size entry.1 ≤ 4 * template.words.length
  apart : template.fields.Pairwise fun first second =>
    size first.1 = 8 ∨ size second.1 = 8 →
      first.2 + size first.1 ≤ second.2 ∨ second.2 + size second.1 ≤ first.2

theorem template_laid (template : Template) : Laid template.code := by
  cases template <;> exact ⟨by decide, by decide, by decide⟩

/-- The constant of eight bytes at an offset. -/
def constantAt (words : List Word) (offset : Nat) : Address :=
  words.getD (offset / 4 + 1) 0 ++ words.getD (offset / 4) 0

/-- The constant that the architecture has for a field. -/
def constant (values : Values) : A64Template.Field → Option Address
  | .handlerAddress => some values.handlerAddress
  | .nextPc => some (values.pc + 4)
  | .adrpResult => some (adrResult values.pc values.insn)
  | .relativeImm19Addr => some (branchTarget values.pc (field values.insn 5 19))
  | .relativeImm26Addr => some (branchTarget values.pc (field values.insn 0 26))
  | _ => none

/-- Where the instruction leads that a return site stands for. -/
def destination (values : Values) : A64Template.Field → Option Address
  | .handlerReturn => some (values.pc + 4)
  | .handlerReturnToImm26 => some (branchTarget values.pc (field values.insn 0 26))
  | .handlerReturnToImm19 => some (branchTarget values.pc (field values.insn 5 19))
  | .handlerReturnToImm14 => some (branchTarget values.pc (field values.insn 5 14))
  | _ => none

/-- A filled out template has the constants of the architecture, its return sites lead where the
instruction does, and what is decoded both ways is the same. -/
structure Architectural (template : Code) (values : Values) : Prop where
  constants : ∀ words, templateFillout template values = some words → ∀ kind offset address,
    (kind, offset) ∈ template.fields → constant values kind = some address →
    constantAt words offset = address
  sites : ∀ offset address, (offset, address) ∈ templateIterReturnAddress template values ↔
    ∃ kind, (kind, offset) ∈ template.fields ∧ destination values kind = some address
  agree19 : ∀ words, templateFillout template values = some words → ∀ offset site,
    (.relativeImm19Addr, offset) ∈ template.fields → (.handlerReturnToImm19, site) ∈ template.fields →
      (site, constantAt words offset) ∈ templateIterReturnAddress template values
  agree26 : ∀ words, templateFillout template values = some words → ∀ offset site,
    (.relativeImm26Addr, offset) ∈ template.fields → (.handlerReturnToImm26, site) ∈ template.fields →
      (site, constantAt words offset) ∈ templateIterReturnAddress template values

section Fields

variable {template : Code} {values : Values} {filled : List Word} {kind : A64Template.Field}
  {offset : Nat}
  {address : Address} {fields : List (A64Template.Field × Nat)}

private theorem getD_set (words : List Word) (i j : Nat) (value : Word) (inside : i < words.length) :
    (words.set i value).getD j 0 = if i = j then value else words.getD j 0 := by
  by_cases same : i = j
  · subst same
    simp [inside]
  · simp [same]

/-- What one field does: it puts a constant, a word or nothing into its place. -/
private theorem fillField_cases (ran : fillField values words offset kind = some filled) :
    (size kind = 8 ∧ ∃ value, filled = insertU64 words offset value) ∨
      (size kind = 4 ∧ ∃ value, filled = insertU32 words offset value) ∨
      (size kind = 0 ∧ filled = words) := by
  cases kind <;> simp only [fillField, patchInsnA64, Option.ite_none_right_eq_some,
    Option.some.injEq] at ran
  case patchCond | patchB40ToB40 => exact .inr (.inl ⟨rfl, _, ran.2.symm⟩)
  case handlerReturn | handlerReturnToImm26 | handlerReturnToImm19 | handlerReturnToImm14 =>
    exact .inr (.inr ⟨rfl, ran.symm⟩)
  case handlerAddress | nextPc | adrpResult | relativeImm19Addr | relativeImm26Addr =>
    exact .inl ⟨rfl, _, ran.symm⟩
  all_goals exact .inr (.inl ⟨rfl, _, ran.symm⟩)

private theorem fillField_length (ran : fillField values words offset kind = some filled) :
    filled.length = words.length := by
  obtain ⟨-, value, rfl⟩ | ⟨-, value, rfl⟩ | ⟨-, rfl⟩ := fillField_cases ran
  · simp [insertU64, insertU32]
  · simp [insertU32]
  · rfl

/-- The other words stay as they are. -/
private theorem fillField_elsewhere (ran : fillField values words offset kind = some filled)
    (aligned : offset % 4 = 0)
    (inside : offset + size kind ≤ 4 * words.length) {i : Nat}
    (elsewhere : 4 * i + 4 ≤ offset ∨ offset + size kind ≤ 4 * i) :
    filled.getD i 0 = words.getD i 0 := by
  obtain ⟨wide, value, rfl⟩ | ⟨narrow, value, rfl⟩ | ⟨-, rfl⟩ := fillField_cases ran
  · have lower : offset / 4 ≠ i := by omega
    have upper : (offset + 4) / 4 ≠ i := by omega
    rw [insertU64, insertU32, insertU32, getD_set _ _ _ _ (by rw [List.length_set]; omega), if_neg upper,
      getD_set _ _ _ _ (by omega), if_neg lower]
  · have here : offset / 4 ≠ i := by omega
    rw [insertU32, getD_set _ _ _ _ (by omega), if_neg here]
  · rfl

/-- The constant of a field is the one that the architecture has. -/
private theorem fillField_constant (ran : fillField values words offset kind = some filled)
    (aligned : offset % 4 = 0)
    (inside : offset + size kind ≤ 4 * words.length) (has : constant values kind = some address) :
    size kind = 8 ∧ constantAt filled offset = address := by
  have inserted : size kind = 8 ∧ filled = insertU64 words offset address := by
    cases kind <;> simp only [constant, Option.some.injEq, reduceCtorEq] at has <;> subst has <;>
      simp only [fillField, Option.some.injEq, displacement19, displacement26, adrpResult_eq] at ran <;>
      exact ⟨rfl, ran.symm⟩
  refine ⟨inserted.1, ?_⟩
  have wide := inserted.1
  have upper : (offset + 4) / 4 = offset / 4 + 1 := by omega
  have low : (insertU64 words offset address).getD (offset / 4) 0 = field address 0 32 := by
    rw [insertU64, insertU32, insertU32, upper, getD_set _ _ _ _ (by rw [List.length_set]; omega),
      if_neg (by omega),
      getD_set _ _ _ _ (by omega), if_pos rfl]
  have high : (insertU64 words offset address).getD (offset / 4 + 1) 0 = field address 32 32 := by
    rw [insertU64, insertU32, insertU32, upper, getD_set _ _ _ _ (by rw [List.length_set]; omega),
      if_pos rfl]
  rw [inserted.2, constantAt, low, high]
  exact field_halves address

/-- The fields that follow leave a word alone that none of them is filled into. -/
private theorem fill_elsewhere
    (ran : fields.foldlM (fun words field => fillField values words field.2 field.1) words = some filled)
    (aligned : ∀ entry ∈ fields, entry.2 % 4 = 0)
    (inside : ∀ entry ∈ fields, entry.2 + size entry.1 ≤ 4 * words.length) {i : Nat}
    (elsewhere : ∀ entry ∈ fields, 4 * i + 4 ≤ entry.2 ∨ entry.2 + size entry.1 ≤ 4 * i) :
    filled.getD i 0 = words.getD i 0 := by
  induction fields generalizing words with
  | nil =>
    obtain rfl := Option.some.inj ran
    rfl
  | cons entry rest ih =>
    obtain ⟨first, here, later⟩ := Option.bind_eq_some_iff.mp ran
    have length : first.length = words.length := fillField_length here
    rw [ih later (fun entry member => aligned entry (List.mem_cons_of_mem _ member))
      (fun entry member => length ▸ inside entry (List.mem_cons_of_mem _ member))
      fun entry member => elsewhere entry (List.mem_cons_of_mem _ member)]
    exact fillField_elsewhere here (aligned entry List.mem_cons_self) (inside entry List.mem_cons_self)
      (elsewhere entry List.mem_cons_self)

/-- Every constant is in its place when all fields are filled out. -/
private theorem fill_constants
    (ran : fields.foldlM (fun words field => fillField values words field.2 field.1) words = some filled)
    (aligned : ∀ entry ∈ fields, entry.2 % 4 = 0)
    (inside : ∀ entry ∈ fields, entry.2 + size entry.1 ≤ 4 * words.length)
    (apart : fields.Pairwise fun first second => size first.1 = 8 ∨ size second.1 = 8 →
      first.2 + size first.1 ≤ second.2 ∨ second.2 + size second.1 ≤ first.2)
    (member : (kind, offset) ∈ fields) (has : constant values kind = some address) :
    constantAt filled offset = address := by
  induction fields generalizing words with
  | nil => exact absurd member List.not_mem_nil
  | cons entry rest ih =>
    obtain ⟨first, here, later⟩ := Option.bind_eq_some_iff.mp ran
    have length : first.length = words.length := fillField_length here
    have aligned_rest : ∀ entry ∈ rest, entry.2 % 4 = 0 := fun entry member =>
      aligned entry (List.mem_cons_of_mem _ member)
    have inside_rest : ∀ entry ∈ rest, entry.2 + size entry.1 ≤ 4 * first.length := fun entry member =>
      length ▸ inside entry (List.mem_cons_of_mem _ member)
    obtain ⟨separate, apart_rest⟩ := List.pairwise_cons.mp apart
    obtain rfl | behind := List.mem_cons.mp member
    · -- The constant is put in here, and the fields behind it are elsewhere.
      have multiple : offset % 4 = 0 := aligned _ List.mem_cons_self
      obtain ⟨wide, value⟩ := fillField_constant here multiple (inside _ List.mem_cons_self) has
      have others : ∀ entry ∈ rest, offset + 8 ≤ entry.2 ∨ entry.2 + size entry.1 ≤ offset :=
        fun entry member =>
        wide ▸ separate entry member (.inl wide)
      have low : filled.getD (offset / 4) 0 = first.getD (offset / 4) 0 :=
        fill_elsewhere later aligned_rest inside_rest fun entry member =>
        by have := others entry member; omega
      have high : filled.getD (offset / 4 + 1) 0 = first.getD (offset / 4 + 1) 0 :=
        fill_elsewhere later aligned_rest inside_rest fun entry member =>
        by have := others entry member; omega
      rw [constantAt, low, high]
      exact value
    · exact ih later aligned_rest inside_rest apart_rest behind

private theorem returnSite_eq (values : Values) (kind : A64Template.Field) (offset : Nat) :
    returnSite values (kind, offset) = (destination values kind).map fun address =>
    (offset, address) := by
  cases kind <;> simp only [returnSite, destination, displacement26, displacement19,
    displacement14, Option.map]

private theorem iter_iff : (offset, address) ∈ templateIterReturnAddress template values ↔
    ∃ kind, (kind, offset) ∈ template.fields ∧ destination values kind = some address := by
  rw [templateIterReturnAddress, List.mem_filterMap]
  constructor
  · rintro ⟨⟨kind, place⟩, member, site⟩
    rw [returnSite_eq, Option.map_eq_some_iff] at site
    obtain ⟨found, leads, same⟩ := site
    obtain ⟨rfl, rfl⟩ := Prod.mk.inj same
    exact ⟨kind, member, leads⟩
  · rintro ⟨kind, member, leads⟩
    exact ⟨(kind, offset), member, by rw [returnSite_eq, leads, Option.map_some]⟩

/-- The immediates of A64 mean what the architecture says, wherever they are decoded. -/
theorem immediates_architectural (laid : Laid template) (values : Values) :
    Architectural template values := by
  have constants : ∀ words, templateFillout template values = some words → ∀ kind offset address,
      (kind, offset) ∈ template.fields → constant values kind = some address →
      constantAt words offset = address :=
    fun words ran kind offset address member has =>
      fill_constants ran laid.aligned laid.inside laid.apart member has
  refine ⟨constants, fun _ _ => iter_iff, fun words ran offset site constant leads => ?_,
    fun words ran offset site constant leads => ?_⟩
  · rw [constants words ran _ _ _ constant rfl]
    exact iter_iff.mpr ⟨_, leads, rfl⟩
  · rw [constants words ran _ _ _ constant rfl]
    exact iter_iff.mpr ⟨_, leads, rfl⟩

end Fields

/-- A jump that has its target also as a constant. -/
def farJump : Code := ⟨[0#32] ++ badaddr, [(.handlerReturnToImm26, 0), (.relativeImm26Addr, 4)]⟩

/-- A `ldr x0` from eight bytes before the address 4, and a `b` to eight bytes before the address 0. -/
theorem backward_immediates_wrap :
    (∃ words, templateFillout Template.ldrLiteral.code ⟨0x4000#64, 4#64, 0x58ffffc0#32⟩ = some words ∧
      constantAt words 12 = 0xfffffffffffffffc#64) ∧
    (∃ words, templateFillout farJump ⟨0x4000#64, 0#64, 0x17fffffe#32⟩ = some words ∧
      constantAt words 4 = 0xfffffffffffffff8#64 ∧
      (0, constantAt words 4) ∈ templateIterReturnAddress farJump ⟨0x4000#64, 0#64, 0x17fffffe#32⟩) := by
  have load := immediates_architectural (template_laid .ldrLiteral) ⟨0x4000#64, 4#64, 0x58ffffc0#32⟩
  have jump := immediates_architectural (show Laid farJump from ⟨by decide, by decide, by decide⟩)
    ⟨0x4000#64, 0#64, 0x17fffffe#32⟩
  refine ⟨⟨_, rfl, load.constants _ rfl .relativeImm19Addr 12 _ (by decide) (by decide)⟩, _, rfl, ?_, ?_⟩
  · exact jump.constants _ rfl .relativeImm26Addr 4 _ (by decide) (by decide)
  · exact jump.agree26 _ rfl 4 0 (by decide) (by decide)

/-! ## Instructions by their class -/

/-- An instruction whose pattern rules out all others. -/
private theorem exec_class {p : Pattern} {effect : Word → State → Option State}
    (has : wordMatches w p = true)
    (only : (instructions.filter fun entry => !conflict 32 p entry.1) = [(p, effect)]) :
    exec w s = effect w s := by
  rw [exec, decodeWith_filter has, only]
  simp [decodeWith, has]

/-- Of a word in the space of conditional branches only those are instructions. -/
private theorem exec_condBranch_space (has : wordMatches w "0101010-------------------------" = true) :
    exec w s = if wordMatches w condBranchPattern then some (execCondBranch w s) else none := by
  have only : (instructions.filter fun entry =>
      !conflict 32 "0101010-------------------------" entry.1) =
      [(condBranchPattern, fun w s => some (execCondBranch w s))] := rfl
  rw [exec, decodeWith_filter has, only]
  cases here : wordMatches w condBranchPattern <;> simp [decodeWith, here]

/-- Likewise for branches to an address in a register. -/
private theorem exec_branchRegister_space (has : wordMatches w "1101011-------------------------" = true)
    (ok : exec w s = some s') :
    ((wordMatches w brPattern = true ∨ wordMatches w retPattern = true) ∧
      s' = s.goto (s.readX (field w 5 5))) ∨
      (wordMatches w blrPattern = true ∧
        s' = (s.writeX 30#5 (s.pc + 4)).goto (s.readX (field w 5 5))) := by
  have only : (instructions.filter fun entry =>
      !conflict 32 "1101011-------------------------" entry.1) =
      [(brPattern, fun w s => some (s.goto (s.readX (field w 5 5)))),
       (blrPattern, fun w s => some ((s.writeX 30#5 (s.pc + 4)).goto (s.readX (field w 5 5)))),
       (retPattern, fun w s => some (s.goto (s.readX (field w 5 5))))] := rfl
  rw [exec, decodeWith_filter has, only] at ok
  cases br : wordMatches w brPattern with
  | true =>
    simp [decodeWith, br] at ok
    exact .inl ⟨.inl rfl, ok.symm⟩
  | false =>
    cases blr : wordMatches w blrPattern with
    | true =>
      simp [decodeWith, br, blr] at ok
      exact .inr ⟨rfl, ok.symm⟩
    | false =>
      cases ret : wordMatches w retPattern with
      | true =>
        simp [decodeWith, br, blr, ret] at ok
        exact .inl ⟨.inr rfl, ok.symm⟩
      | false => simp [decodeWith, br, blr, ret] at ok

/-! ## States -/

@[simp] private theorem goto_pc (s : State) (a : Address) : (s.goto a).pc = a := rfl

@[simp] private theorem goto_flags (s : State) (a : Address) : (s.goto a).flags = s.flags := rfl

@[simp] private theorem goto_goto (s : State) (a b : Address) : (s.goto a).goto b = s.goto b := rfl

@[simp] private theorem goto_next (s : State) (a : Address) : (s.goto a).next = s.goto (a + 4) := rfl

@[simp] private theorem goto_readX (s : State) (a : Address) (r : BitVec 5) :
    (s.goto a).readX r = s.readX r := rfl

@[simp] private theorem goto_readXsp (s : State) (a : Address) (r : BitVec 5) :
    (s.goto a).readXsp r = s.readXsp r := rfl

@[simp] private theorem goto_writeX (s : State) (a : Address) (r : BitVec 5) (v : BitVec 64) :
    (s.goto a).writeX r v = (s.writeX r v).goto a := by
  unfold State.writeX
  split <;> rfl

private theorem load_of_memory {s t : State} (same : t.memory = s.memory) (a : Address) (bytes : Nat) :
    t.load a bytes = s.load a bytes := by
  induction bytes generalizing a with
  | zero => rfl
  | succ bytes ih => simp only [State.load, same, ih]

@[simp] private theorem goto_load (s : State) (a b : Address) (bytes : Nat) :
    (s.goto a).load b bytes = s.load b bytes :=
  load_of_memory (s := s) (t := s.goto a) rfl b bytes

@[simp] private theorem writeX_load (s : State) (r : BitVec 5) (v : BitVec 64) (b : Address)
    (bytes : Nat) :
    (s.writeX r v).load b bytes = s.load b bytes := by
  apply load_of_memory
  unfold State.writeX
  split <;> rfl

@[simp] private theorem writeX_writeX (s : State) (r : BitVec 5) (v v' : BitVec 64) :
    (s.writeX r v).writeX r v' = s.writeX r v' := by
  unfold State.writeX
  split
  · rfl
  · simp only [State.mk.injEq, and_true]
    funext q
    split <;> rfl

private theorem readX_writeX (s : State) (r q : BitVec 5) (v : BitVec 64) (different : q ≠ r) :
    (s.writeX r v).readX q = s.readX q := by
  unfold State.readX State.writeX
  split
  · rfl
  · split
    · rfl
    · simp [different]

private theorem readX_writeX_same (s : State) (r : BitVec 5) (v : BitVec 64) (real : r ≠ 31#5) :
    (s.writeX r v).readX r = v := by
  simp [State.readX, State.writeX, real]

private theorem writeX_comm (s : State) (r q : BitVec 5) (v v' : BitVec 64) (different : q ≠ r) :
    (s.writeX r v).writeX q v' = (s.writeX q v').writeX r v := by
  unfold State.writeX
  split
  · rfl
  · split
    · rfl
    · simp only [State.mk.injEq, and_true]
      funext i
      grind

/-- A register that holds an address, replaced by what is computed from it. -/
private theorem writeX_through (s : State) (r : BitVec 5) (v : BitVec 64) (f : BitVec 64 → BitVec 64) :
    (s.writeX r v).writeX r (f ((s.writeX r v).readXsp r)) = s.writeX r (f v) := by
  rw [writeX_writeX]
  unfold State.readXsp State.writeX
  split
  · rfl
  · simp

/-- A double word is two words. -/
private theorem load_eight (s : State) (a : Address) : s.load a 8 = s.load (a + 4) 4 ++ s.load a 4 := by
  simp only [State.load, BitVec.add_assoc]
  ext i h
  simp only [BitVec.getElem_append]
  grind

/-! ## Running a template -/

private theorem goto_base (s : State) (base : Address) : s.goto base = s.goto (place base 0) :=
  by simp [place]

private theorem place_add_four (base : Address) (offset : Nat) :
    place base offset + 4 = place base (offset + 4) := by
  rw [place, place, BitVec.add_assoc, BitVec.ofNat_add]
  rfl

private theorem branchTarget_place {k : Nat} (base : Address) (offset imm : Nat) (v : BitVec k)
    (distance : (v ++ 0#2).signExtend 64 = BitVec.ofNat 64 imm) :
    branchTarget (place base offset) v = place base (offset + imm) := by
  rw [branchTarget, distance, place, place, BitVec.add_assoc, BitVec.ofNat_add]

private theorem place_eq (base : Address) (i j : Nat) (first : i < 2 ^ 64) (second : j < 2 ^ 64) :
    (place base i = place base j) ↔ i = j := by
  constructor
  · intro same
    have equal : BitVec.ofNat 64 i = BitVec.ofNat 64 j := (BitVec.add_right_inj base).mp same
    have same_value := congrArg BitVec.toNat equal
    rwa [BitVec.toNat_ofNat, BitVec.toNat_ofNat, Nat.mod_eq_of_lt first,
      Nat.mod_eq_of_lt second] at same_value
  · rintro rfl
    rfl

/-- A word of the template. -/
private theorem loaded_word (loaded : Loaded s base words) (i : Nat) (at_ : words[i]? = some w) :
    s.load (place base (4 * i)) 4 = w := by
  obtain ⟨h, rfl⟩ := List.getElem?_eq_some_iff.mp at_
  exact loaded i h

/-- A constant of the template. -/
private theorem loaded_constant (loaded : Loaded s base words) (i : Nat) (v : BitVec 64)
    (low : words[i]? = some (field v 0 32)) (high : words[i + 1]? = some (field v 32 32)) :
    s.load (place base (4 * i)) 8 = v := by
  rw [load_eight, place_add_four, loaded_word loaded i low, show 4 * i + 4 = 4 * (i + 1) by omega,
    loaded_word loaded (i + 1) high]
  exact field_halves v

/-- The return site at an offset. -/
private def siteAt (template : Template) (values : Values) (offset : Nat) : Option (Nat × Address) :=
  (templateIterReturnAddress template.code values).find? fun site => offset = site.1

/-- The return sites are told apart by their offsets. -/
private theorem find_site (template : Template) (values : Values) (base : Address) (offset : Nat)
    (small : offset < 2 ^ 64) :
    ((templateIterReturnAddress template.code values).find? fun site => place base offset =
      place base site.1) =
      siteAt template values offset := by
  have bounds : ∀ site ∈ templateIterReturnAddress template.code values, site.1 < 2 ^ 64 := by
    cases template <;> simp [templateIterReturnAddress, Template.code, returnSite] <;> grind
  unfold siteAt
  revert bounds
  induction templateIterReturnAddress template.code values with
  | nil => exact fun _ => rfl
  | cons site rest ih =>
    intro bounds
    have here := place_eq base offset site.1 small (bounds site List.mem_cons_self)
    have later := ih fun site member => bounds site (List.mem_cons_of_mem _ member)
    simp only [List.find?_cons, here, later]

section Run

variable {template : Template} {values : Values}

/-- A step in the `ool` part. -/
private theorem run_step (steps offset : Nat) (small : offset < 2 ^ 64)
    (elsewhere : siteAt template values offset = none)
    (fetched : s.load (place base offset) 4 = w) (direct : indirect w = false)
    (ok : exec w (s.goto (place base offset)) = some s') :
    runOol base (templateIterReturnAddress template.code values) (steps + 1)
    (s.goto (place base offset)) =
      runOol base (templateIterReturnAddress template.code values) steps s' := by
  rw [runOol, goto_pc, find_site _ _ _ _ small, elsewhere]
  simp only [goto_load, fetched, ok, direct, Bool.false_eq_true, ↓reduceIte]

/-- The step that leaves the template for an address in a register. -/
private theorem run_leave (steps offset : Nat) (small : offset < 2 ^ 64)
    (elsewhere : siteAt template values offset = none)
    (fetched : s.load (place base offset) 4 = w) (leaves : indirect w = true)
    (ok : exec w (s.goto (place base offset)) = some s') :
    runOol base (templateIterReturnAddress template.code values) (steps + 1)
    (s.goto (place base offset)) = some s' := by
  rw [runOol, goto_pc, find_site _ _ _ _ small, elsewhere]
  simp only [goto_load, fetched, ok, leaves, ↓reduceIte]

/-- The step that leaves it at a return site. -/
private theorem run_site (steps offset : Nat) (dest : Address) (small : offset < 2 ^ 64)
    (here : siteAt template values offset = some (offset, dest)) :
    runOol base (templateIterReturnAddress template.code values) (steps + 1)
    (s.goto (place base offset)) =
      some (s.goto dest) := by
  rw [runOol, goto_pc, find_site _ _ _ _ small, here]
  rfl

end Run

/-- The load of a constant into a register. -/
private theorem exec_constant (rt : BitVec 5) (offset imm : Nat)
    (has : wordMatches w loadLiteralPattern = true)
    (general : w.getLsbD 26 = false) (double : field w 30 2 = 1#2) (target : field w 0 5 = rt)
    (distance : (field w 5 19 ++ 0#2).signExtend 64 = BitVec.ofNat 64 imm) :
    exec w (s.goto (place base offset)) =
      some ((s.writeX rt (s.load (place base (offset + imm)) 8)).goto (place base (offset + 4))) := by
  rw [exec_class has rfl, execLoadLiteral]
  simp only [general, double, target, branchTarget_place base offset imm _ distance, goto_pc,
    BitVec.toNat_ofNat, goto_load,
    goto_writeX, goto_next, place_add_four]

/-- A word of another class than the branches to an address in a register. -/
private theorem direct_of_matches {p : Pattern} (has : wordMatches w p = true)
    (apart : (conflict 32 p brPattern && conflict 32 p blrPattern && conflict 32 p retPattern) = true) :
    indirect w = false := by
  simp only [Bool.and_eq_true] at apart
  simp [indirect, not_matches_of_conflict has apart.1.1, not_matches_of_conflict has apart.1.2,
    not_matches_of_conflict has apart.2]

/-! ## The templates -/

variable {handler : Address}

/-- What the template does from its `ool` part on: it is filled out, and its run ends in `result`. -/
private def Runs (template : Template) (handler pc base : Address) (w : Word) (s result : State) :
    Prop :=
  ∃ words, templateFillout template.code ⟨handler, pc, w⟩ = some words ∧
    (Loaded s base words → ∀ steps,
      runOol base (templateIterReturnAddress template.code ⟨handler, pc, w⟩) (steps + 4)
        (s.goto base) = some result)

private theorem adrp_runs : Runs .adrp handler pc base w s (execAdr w (s.goto pc)) := by
  refine ⟨_, rfl, fun loaded steps => ?_⟩
  have literal : wordMatches (patch 0x1f#32 0x58000050#32 w) loadLiteralPattern = true := by
    rw [matches_patch (by decide)]
    decide
  have constant : s.load (place base 8) 8 = adrpResult pc w := loaded_constant loaded 2 _ rfl rfl
  rw [goto_base, run_step _ 0 (by decide) rfl (loaded_word loaded 0 rfl)
    (direct_of_matches literal (by decide))
    (exec_constant (field w 0 5) 0 8 literal ?_ ?_ ?_ ?_), run_site _ 4 _ (by decide) rfl]
  · simp only [constant, adrpResult_eq, execAdr, goto_writeX, goto_pc, goto_next]
  · rw [getLsbD_patch]
    rfl
  · rw [field_patch_outside _ _ (by decide) (by decide)]
    decide
  · exact field_patch_inside 0 5 (by decide)
  · rw [field_patch_outside _ _ (by decide) (by decide)]
    decide

private theorem b_runs (plain : w.getLsbD 31 = false) :
    Runs .b handler pc base w s (execBranch w (s.goto pc)) := by
  refine ⟨_, rfl, fun _ steps => ?_⟩
  rw [goto_base, run_site _ 0 _ (by decide) rfl]
  simp only [execBranch, plain, Bool.false_eq_true, ↓reduceIte, goto_pc, goto_goto, displacement26]

/-- The constant of `bl` and `blr`. -/
private theorem exec_link (offset : Nat) (constant : s.load (place base (offset + 16)) 8 = pc + 4) :
    exec 0x5800009e#32 (s.goto (place base offset)) =
      some ((s.writeX 30#5 (pc + 4)).goto (place base (offset + 4))) := by
  rw [exec_constant 30#5 offset 16 (by decide) (by decide) (by decide) (by decide) (by decide), constant]

private theorem bl_runs (links : w.getLsbD 31 = true) :
    Runs .bl handler pc base w s (execBranch w (s.goto pc)) := by
  refine ⟨_, rfl, fun loaded steps => ?_⟩
  have constant : s.load (place base 16) 8 = pc + 4 := loaded_constant loaded 4 _ rfl rfl
  rw [goto_base, run_step _ 0 (by decide) rfl (loaded_word loaded 0 rfl) (by decide)
    (exec_link 0 constant),
    run_site _ 4 _ (by decide) rfl]
  simp only [execBranch, links, ↓reduceIte, goto_pc, goto_goto, goto_writeX, displacement26]

/-- The end of a template that branches over its first return site to the second. -/
private theorem run_either {template : Template} {values : Values} (taken : Bool) (steps : Nat)
    (target : Address)
    (no : siteAt template values 4 = some (4, values.pc + 4))
    (yes : siteAt template values 8 = some (8, target)) :
    runOol base (templateIterReturnAddress template.code values) (steps + 1)
        (if taken then s.goto (place base 8) else s.goto (place base 4)) =
      some (if taken then s.goto target else s.goto (values.pc + 4)) := by
  cases taken with
  | false => exact run_site _ 4 _ (by decide) no
  | true => exact run_site _ 8 _ (by decide) yes

private theorem bCond_runs (has : wordMatches w condBranchPattern = true) :
    Runs .bCond handler pc base w s (execCondBranch w (s.goto pc)) := by
  have filled : templateFillout Template.bCond.code ⟨handler, pc, w⟩ =
      some (insertU64 (insertU64 (patchInsnA64 Template.bCond.code.words 0 0xf#32 w) 12 handler) 20
        (pc + 4)) := by
    have asserted : wordMatches w "01010100-------------------0----" = true := has
    simp only [templateFillout, Template.code, fillField, List.foldlM, asserted]
    rfl
  refine ⟨_, filled, fun loaded steps => ?_⟩
  have branch : wordMatches (patch 0xf#32 0x5400004e#32 w) condBranchPattern = true := by
    rw [matches_patch (by decide)]
    decide
  have runs : exec (patch 0xf#32 0x5400004e#32 w) (s.goto (place base 0)) =
      some (if condHolds (field w 0 4) s.flags then s.goto (place base 8) else s.goto
        (place base 4)) := by
    rw [exec_class branch rfl, execCondBranch, field_patch_inside 0 4 (by decide),
      field_patch_outside 5 19 (by decide) (by decide)]
    simp only [goto_pc, goto_flags, goto_goto, goto_next, place_add_four,
      branchTarget_place base 0 8 (field 0x5400004e#32 5 19) (by decide)]
  rw [goto_base, run_step _ 0 (by decide) rfl (loaded_word loaded 0 rfl)
    (direct_of_matches branch (by decide)) runs,
    run_either _ _ _ rfl rfl]
  simp only [execCondBranch, goto_pc, goto_flags, goto_goto, goto_next, displacement19]
  rfl

private theorem cbnz_runs : Runs .cbnz handler pc base w s (execCompareBranch w (s.goto pc)) := by
  refine ⟨_, rfl, fun loaded steps => ?_⟩
  have branch : wordMatches (patch 0x80000000#32
      (patch 0x1f#32 (patch 0x01000000#32 0xb4000050#32 w) w) w)
      compareBranchPattern = true := by
    rw [matches_patch (by decide), matches_patch (by decide), matches_patch (by decide)]
    decide
  have runs : exec (patch 0x80000000#32 (patch 0x1f#32 (patch 0x01000000#32 0xb4000050#32 w) w) w)
      (s.goto (place base 0)) = some (if (if w.getLsbD 31 then s.readX (field w 0 5) == 0
        else field (s.readX (field w 0 5)) 0 32 == 0) != w.getLsbD 24 then s.goto (place base 8)
        else s.goto (place base 4)) := by
    rw [exec_class branch rfl, execCompareBranch, field_patch_outside 0 5 (by decide) (by decide),
      field_patch_inside 0 5 (by decide), field_patch_outside 5 19 (by decide) (by decide),
      field_patch_outside 5 19 (by decide) (by decide), field_patch_outside 5 19 (by decide) (by decide)]
    simp only [goto_pc, goto_readX, goto_goto, goto_next, place_add_four,
      branchTarget_place base 0 8 (field 0xb4000050#32 5 19) (by decide)]
    simp only [getLsbD_patch]
    rfl
  rw [goto_base, run_step _ 0 (by decide) rfl (loaded_word loaded 0 rfl)
    (direct_of_matches branch (by decide)) runs,
    run_either _ _ _ rfl rfl]
  simp only [execCompareBranch, goto_pc, goto_readX, goto_goto, goto_next, displacement19]
  rfl

private theorem tbnz_runs (has : wordMatches w testBranchPattern = true) :
    Runs .tbnz handler pc base w s (execTestBranch w (s.goto pc)) := by
  have filled : templateFillout Template.tbnz.code ⟨handler, pc, w⟩ =
      some (insertU64 (insertU64
        (patchInsnA64 (patchInsnA64 (patchInsnA64 (patchInsnA64 Template.tbnz.code.words 0
        0x80f80000#32 w) 0 0x01000000#32 w) 0 0x1f#32 w) 0 0x80000000#32 w) 12 handler) 20
          (pc + 4)) := by
    have asserted : wordMatches w "-011011-------------------------" = true := has
    simp only [templateFillout, Template.code, fillField, List.foldlM, asserted]
    rfl
  refine ⟨_, filled, fun loaded steps => ?_⟩
  have branch : wordMatches (patch 0x80000000#32
      (patch 0x1f#32 (patch 0x01000000#32 (patch 0x80f80000#32 0x36000050#32 w)
      w) w) w) testBranchPattern = true := by
    rw [matches_patch (by decide), matches_patch (by decide), matches_patch (by decide),
      matches_patch (by decide)]
    decide
  have runs : exec (patch 0x80000000#32
      (patch 0x1f#32 (patch 0x01000000#32 (patch 0x80f80000#32 0x36000050#32 w) w) w) w)
      (s.goto (place base 0)) = some
        (if (s.readX (field w 0 5)).getLsbD (field w 31 1 ++ field w 19 5).toNat ==
        w.getLsbD 24 then s.goto (place base 8) else s.goto (place base 4)) := by
    rw [exec_class branch rfl, execTestBranch, field_patch_outside 0 5 (by decide) (by decide),
      field_patch_inside 0 5 (by decide), field_patch_outside 5 14 (by decide) (by decide),
      field_patch_outside 5 14 (by decide) (by decide), field_patch_outside 5 14 (by decide) (by decide),
      field_patch_outside 5 14 (by decide) (by decide), field_patch_inside 31 1 (by decide),
      field_patch_outside 19 5 (by decide) (by decide), field_patch_outside 19 5 (by decide) (by decide),
      field_patch_outside 19 5 (by decide) (by decide), field_patch_inside 19 5 (by decide)]
    simp only [goto_pc, goto_readX, goto_goto, goto_next, place_add_four,
      branchTarget_place base 0 8 (field 0x36000050#32 5 14) (by decide)]
    simp only [getLsbD_patch]
    rfl
  rw [goto_base, run_step _ 0 (by decide) rfl (loaded_word loaded 0 rfl)
    (direct_of_matches branch (by decide)) runs,
    run_either _ _ _ rfl rfl]
  simp only [execTestBranch, goto_pc, goto_readX, goto_goto, goto_next, displacement14]
  rfl

/-- A branch to an address in a register, at any address. -/
private theorem exec_br (has : wordMatches w brPattern = true) :
    exec w s = some (s.goto (s.readX (field w 5 5))) := by
  rw [exec_class has rfl]

/-- The `br` of a template, to the register of the instruction. -/
private theorem patched_br (w : Word) :
    wordMatches (patch 0x3e0#32 0xd61f0200#32 w) brPattern = true := by
  rw [matches_patch (by decide)]
  decide

private theorem indirect_of_br (has : wordMatches w brPattern = true) : indirect w = true :=
  by simp [indirect, has]

private theorem br_runs : Runs .br handler pc base w s (s.goto (s.readX (field w 5 5))) := by
  refine ⟨_, rfl, fun loaded steps => ?_⟩
  rw [goto_base, run_leave _ 0 (by decide) rfl (loaded_word loaded 0 rfl) (indirect_of_br (patched_br w))
    (exec_br (patched_br w)), goto_readX, goto_goto, field_patch_inside 5 5 (by decide)]

private theorem blr_runs (other : field w 5 5 ≠ 30#5) :
    Runs .blr handler pc base w s ((s.writeX 30#5 (pc + 4)).goto (s.readX (field w 5 5))) := by
  refine ⟨_, rfl, fun loaded steps => ?_⟩
  have constant : s.load (place base 16) 8 = pc + 4 := loaded_constant loaded 4 _ rfl rfl
  have second : (s.writeX 30#5 (pc + 4)).load (place base 4) 4 = patch 0x3e0#32 0xd61f0200#32 w := by
    rw [writeX_load]
    exact loaded_word loaded 1 rfl
  rw [goto_base, run_step _ 0 (by decide) rfl (loaded_word loaded 0 rfl) (by decide)
    (exec_link 0 constant),
    run_leave _ 4 (by decide) rfl second (indirect_of_br (patched_br w)) (exec_br (patched_br w)),
    goto_readX, goto_goto,
    field_patch_inside 5 5 (by decide), readX_writeX _ _ _ _ other]

/-- `blr x30` branches through the scratch register. -/
private theorem blrX30_runs :
    Runs .blrX30 handler pc base w s (((s.writeX 30#5 (pc + 4)).goto (s.x 30#5)).writeX 16#5
      (s.x 30#5)) := by
  refine ⟨_, rfl, fun loaded steps => ?_⟩
  have moved : exec 0xaa1e03f0#32 (s.goto (place base 0)) =
      some ((s.writeX 16#5 (s.x 30#5)).goto (place base 4)) := by
    rw [exec_class (show wordMatches 0xaa1e03f0#32 orPattern = true by decide) rfl]
    simp only [execOr, goto_readX, goto_writeX, goto_next, place_add_four]
    congr 3
    exact BitVec.zero_or
  have constant : (s.writeX 16#5 (s.x 30#5)).load (place base 20) 8 = pc + 4 := by
    rw [writeX_load]
    exact loaded_constant loaded 5 _ rfl rfl
  have second : (s.writeX 16#5 (s.x 30#5)).load (place base 4) 4 = 0x5800009e#32 := by
    rw [writeX_load]
    exact loaded_word loaded 1 rfl
  have third : ((s.writeX 16#5 (s.x 30#5)).writeX 30#5 (pc + 4)).load (place base 8) 4 =
      0xd61f0200#32 := by
    rw [writeX_load, writeX_load]
    exact loaded_word loaded 2 rfl
  rw [goto_base, run_step _ 0 (by decide) rfl (loaded_word loaded 0 rfl) (by decide) moved,
    run_step _ 4 (by decide) rfl second (by decide) (exec_link 4 constant),
    run_leave _ 8 (by decide) rfl third (by decide) (exec_br (by decide)), goto_readX, goto_goto,
    show field 0xd61f0200#32 5 5 =
      16#5 by decide, readX_writeX _ _ _ _ (by decide), readX_writeX_same _ _ _ (by decide),
    writeX_comm _ _ _ _ _ (by decide), goto_writeX]

/-- The first load of the templates for loads of literals leaves the address in the register. -/
private theorem exec_address (address : BitVec 64) (constant : s.load (place base 12) 8 = address) :
    exec (patch 0x1f#32 0x58000070#32 w) (s.goto (place base 0)) =
      some ((s.writeX (field w 0 5) address).goto (place base 4)) := by
  rw [exec_constant (field w 0 5) 0 12 ?_ ?_ ?_ ?_ ?_, constant]
  · rw [matches_patch (by decide)]
    decide
  · rw [getLsbD_patch]
    rfl
  · rw [field_patch_outside _ _ (by decide) (by decide)]
    decide
  · exact field_patch_inside 0 5 (by decide)
  · rw [field_patch_outside _ _ (by decide) (by decide)]
    decide

/-- The register number of the address, which `rn2rt` takes from the other field. -/
private theorem field_shifted (w : Word) : field (w <<< 5) 5 5 = field w 0 5 := by
  ext i h
  simp [field]
  grind

/-- The second load of the template replaces the address by what is there. -/
private theorem exec_load (address : BitVec 64) :
    exec (patch 0x1f#32 (patch 0x3e0#32 (patch 0x40000000#32 0xf9400210#32 w) (w <<< 5)) w)
        ((s.writeX (field w 0 5) address).goto (place base 4)) =
      some ((s.writeX (field w 0 5) (if w.getLsbD 30 then s.load address 8
        else (s.load address 4).setWidth 64)).goto
        (place base 8)) := by
  have load : wordMatches (patch 0x1f#32 (patch 0x3e0#32 (patch 0x40000000#32 0xf9400210#32 w)
      (w <<< 5)) w)
      loadPattern = true := by
    rw [matches_patch (by decide), matches_patch (by decide), matches_patch (by decide)]
    decide
  have size : (patch 0x1f#32 (patch 0x3e0#32 (patch 0x40000000#32 0xf9400210#32 w) (w <<< 5))
      w).getLsbD 30 =
      w.getLsbD 30 := by
    simp only [getLsbD_patch]
    rfl
  rw [exec_class load rfl, execLoad, size, field_patch_inside 0 5 (by decide),
    field_patch_outside 5 5 (by decide) (by decide), field_patch_inside 5 5 (by decide), field_shifted,
    field_patch_outside 10 12 (by decide) (by decide), field_patch_outside 10 12 (by decide) (by decide),
    field_patch_outside 10 12 (by decide) (by decide), show field 0xf9400210#32 10 12 = 0#12 by decide]
  simp only [goto_readXsp, goto_load, writeX_load, goto_writeX, goto_next, place_add_four,
    show ((0#12) ++ 0#2).setWidth 64 = 0#64 by decide, show ((0#12) ++ 0#3).setWidth 64 = 0#64 by
      decide, BitVec.add_zero]
  cases w.getLsbD 30 with
  | false =>
    have through := writeX_through s (field w 0 5) address fun a => (s.load a 4).setWidth 64
    simp only [Bool.false_eq_true, ↓reduceIte, through]
  | true =>
    have through := writeX_through s (field w 0 5) address fun a => s.load a 8
    simp only [↓reduceIte, through]

private theorem ldrLiteral_runs (general : w.getLsbD 26 = false)
    (ok : execLoadLiteral w (s.goto pc) = some s')
    (unsigned : field w 30 2 = 0#2 ∨ field w 30 2 = 1#2) : Runs .ldrLiteral handler pc base w s s' := by
  refine ⟨_, rfl, fun loaded steps => ?_⟩
  have constant : s.load (place base 12) 8 = branchTarget pc (field w 5 19) := by
    rw [← displacement19]
    exact loaded_constant loaded 3 _ rfl rfl
  have second : (s.writeX (field w 0 5) (branchTarget pc (field w 5 19))).load (place base 4) 4 =
      patch 0x1f#32 (patch 0x3e0#32 (patch 0x40000000#32 0xf9400210#32 w) (w <<< 5)) w := by
    rw [writeX_load]
    exact loaded_word loaded 1 rfl
  have literal : wordMatches (patch 0x1f#32 0x58000070#32 w) loadLiteralPattern = true := by
    rw [matches_patch (by decide)]
    decide
  have load : wordMatches (patch 0x1f#32 (patch 0x3e0#32 (patch 0x40000000#32 0xf9400210#32 w)
      (w <<< 5)) w)
      loadPattern = true := by
    rw [matches_patch (by decide), matches_patch (by decide), matches_patch (by decide)]
    decide
  rw [goto_base, run_step _ 0 (by decide) rfl (loaded_word loaded 0 rfl)
    (direct_of_matches literal (by decide))
    (exec_address _ constant), run_step _ 4 (by decide) rfl second
      (direct_of_matches load (by decide)) (exec_load _),
    run_site _ 8 _ (by decide) rfl, ← ok]
  have size : w.getLsbD 30 = (field w 30 2).getLsbD 0 := by simp [field]
  rcases unsigned with opc | opc
  · rw [size, opc, execLoadLiteral, general, opc]
    simp only [goto_pc, goto_load, goto_writeX, goto_next]
    rfl
  · rw [size, opc, execLoadLiteral, general, opc]
    simp only [goto_pc, goto_load, goto_writeX, goto_next]
    rfl

/-- Likewise for `ldrsw`. -/
private theorem exec_loadSigned (address : BitVec 64) :
    exec (patch 0x1f#32 (patch 0x3e0#32 0xb9800210#32 (w <<< 5)) w)
    ((s.writeX (field w 0 5) address).goto (place base 4)) =
      some ((s.writeX (field w 0 5) ((s.load address 4).signExtend 64)).goto (place base 8)) := by
  have load : wordMatches (patch 0x1f#32 (patch 0x3e0#32 0xb9800210#32 (w <<< 5)) w)
      loadSignedPattern = true := by
    rw [matches_patch (by decide), matches_patch (by decide)]
    decide
  have through := writeX_through s (field w 0 5) address fun a => (s.load a 4).signExtend 64
  rw [exec_class load rfl, execLoadSigned, field_patch_inside 0 5 (by decide),
    field_patch_outside 5 5 (by decide) (by decide), field_patch_inside 5 5 (by decide), field_shifted,
    field_patch_outside 10 12 (by decide) (by decide), field_patch_outside 10 12 (by decide) (by decide),
    show field 0xb9800210#32 10 12 = 0#12 by decide]
  simp only [goto_readXsp, goto_load, writeX_load, goto_writeX, goto_next, place_add_four,
    show ((0#12) ++ 0#2).setWidth 64 = 0#64 by decide, BitVec.add_zero, through]

private theorem ldrswLiteral_runs (general : w.getLsbD 26 = false)
    (ok : execLoadLiteral w (s.goto pc) = some s')
    (signed : field w 30 2 = 2#2) : Runs .ldrswLiteral handler pc base w s s' := by
  refine ⟨_, rfl, fun loaded steps => ?_⟩
  have constant : s.load (place base 12) 8 = branchTarget pc (field w 5 19) := by
    rw [← displacement19]
    exact loaded_constant loaded 3 _ rfl rfl
  have second : (s.writeX (field w 0 5) (branchTarget pc (field w 5 19))).load (place base 4) 4 =
      patch 0x1f#32 (patch 0x3e0#32 0xb9800210#32 (w <<< 5)) w := by
    rw [writeX_load]
    exact loaded_word loaded 1 rfl
  have literal : wordMatches (patch 0x1f#32 0x58000070#32 w) loadLiteralPattern = true := by
    rw [matches_patch (by decide)]
    decide
  have load : wordMatches (patch 0x1f#32 (patch 0x3e0#32 0xb9800210#32 (w <<< 5)) w)
      loadSignedPattern = true := by
    rw [matches_patch (by decide), matches_patch (by decide)]
    decide
  rw [goto_base, run_step _ 0 (by decide) rfl (loaded_word loaded 0 rfl)
    (direct_of_matches literal (by decide))
    (exec_address _ constant), run_step _ 4 (by decide) rfl second
      (direct_of_matches load (by decide)) (exec_loadSigned _),
    run_site _ 8 _ (by decide) rfl, ← ok]
  rw [execLoadLiteral, general, signed]
  simp only [goto_pc, goto_load, goto_writeX, goto_next]
  rfl

/-! ## The choice of the template -/

section Choice

variable {template : Template}

private theorem immediate_cases (selected : decodeA64DataProcessingImmediate w = some template)
    (special : template ≠ .generic) : template = .adrp ∧ wordMatches w adrPattern = true := by
  unfold decodeA64DataProcessingImmediate at selected
  split at selected
  · exact ⟨by simpa using selected.symm, ‹_›⟩
  · simp_all

private theorem loadStore_cases (selected : decodeA64LoadStore w = some template)
    (special : template ≠ .generic)
    (general : ¬(wordMatches w loadLiteralPattern = true ∧ w.getLsbD 26 = true)) :
    wordMatches w loadLiteralPattern = true ∧ w.getLsbD 26 = false ∧
      ((template = .ldrswLiteral ∧ field w 30 2 = 2#2) ∨
        (template = .ldrLiteral ∧ (field w 30 2 = 0#2 ∨ field w 30 2 = 1#2))) := by
  unfold decodeA64LoadStore at selected
  split at selected
  · rename_i literal
    have general : w.getLsbD 26 = false := by simpa using fun simd => general ⟨literal, simd⟩
    refine ⟨literal, general, ?_⟩
    simp only [general] at selected
    split at selected
    · simp at selected
    · split at selected
      · exact .inl ⟨by simpa using selected.symm, by simp_all⟩
      · apply Or.inr
        apply And.intro (by simpa using selected.symm)
        have values : ∀ opc : BitVec 2, ¬opc = 3#2 → ¬opc = 2#2 → opc = 0#2 ∨ opc = 1#2 := by decide
        apply values <;> simp_all
  · simp_all

/-- The branches, with the encodings that `fill` refuses or that are not allocated among them. -/
private theorem branch_cases (selected : decodeA64BranchExceptionSystem w = some template)
    (special : template ≠ .generic) :
    (wordMatches w branchPattern = true ∧ template = if w.getLsbD 31 then .bl else .b) ∨
      (wordMatches w compareBranchPattern = true ∧ template = .cbnz) ∨
      (wordMatches w testBranchPattern = true ∧ template = .tbnz) ∨
      (wordMatches w "0101010-------------------------" = true ∧ template = .bCond) ∨
      (wordMatches w "1101011-------------------------" = true ∧
        (((field w 21 4 = 0#4 ∨ field w 21 4 = 2#4) ∧ template = .br) ∨
          (field w 21 4 = 1#4 ∧ template = if field w 5 5 = 30#5 then .blrX30 else .blr))) := by
  unfold decodeA64BranchExceptionSystem at selected
  split at selected
  · apply Or.inl
    apply And.intro ‹_›
    split at selected <;> simp_all
  · split at selected
    · exact .inr (.inl ⟨‹_›, by simpa using selected.symm⟩)
    · split at selected
      · exact .inr (.inr (.inl ⟨‹_›, by simpa using selected.symm⟩))
      · split at selected
        · exact .inr (.inr (.inr (.inl ⟨‹_›, by simpa using selected.symm⟩)))
        · split at selected
          · simp_all
          · split at selected
            · simp_all
            · split at selected
              · rename_i register
                refine .inr (.inr (.inr (.inr ⟨register, ?_⟩)))
                split at selected
                · exact .inl ⟨.inl (BitVec.eq_of_toNat_eq ‹_›), by simpa using selected.symm⟩
                · exact .inl ⟨.inr (BitVec.eq_of_toNat_eq ‹_›), by simpa using selected.symm⟩
                · rename_i opc
                  exact .inr ⟨BitVec.eq_of_toNat_eq opc, by split at selected <;> simp_all⟩
                · simp_all
                · simp_all
                · simp at selected
              · simp at selected

/-- A template is chosen by the class of the instruction. -/
private theorem select_cases (selected : templateSelectA64 w = some template) :
    decodeA64DataProcessingImmediate w = some template ∨ decodeA64BranchExceptionSystem w =
      some template ∨
      decodeA64LoadStore w = some template ∨ template = .generic := by
  unfold templateSelectA64 at selected
  split at selected
  · simp at selected
  · split at selected
    · exact .inl selected
    · split at selected
      · exact .inr (.inl selected)
      · split at selected
        · exact .inr (.inr (.inl selected))
        · split at selected
          · exact .inr (.inr (.inr (by simpa using selected.symm)))
          · split at selected <;> simp at selected

end Choice

/-- The branches to an address in a register, of which `blr x30` goes through the scratch register. -/
private theorem branchRegister_runs {template : Template}
    (has : wordMatches w "1101011-------------------------" = true)
    (chosen : ((field w 21 4 = 0#4 ∨ field w 21 4 = 2#4) ∧ template = .br) ∨
      (field w 21 4 = 1#4 ∧ template = if field w 5 5 = 30#5 then .blrX30 else .blr))
    (allocated : exec w (s.goto pc) = some s') :
    Runs template handler pc base w s (if template =
      .blrX30 then s'.writeX 16#5 (s.x 30#5) else s') := by
  rcases exec_branchRegister_space has allocated with ⟨plain, rfl⟩ | ⟨blr, rfl⟩
  · rcases chosen with ⟨-, rfl⟩ | ⟨opc, -⟩
    · exact br_runs
    · rcases plain with br | ret
      · rw [field_of_matches br 21 4 (by decide)] at opc
        contradiction
      · rw [field_of_matches ret 21 4 (by decide)] at opc
        contradiction
  · rcases chosen with ⟨opc, -⟩ | ⟨-, rfl⟩
    · rw [field_of_matches blr 21 4 (by decide)] at opc
      exact absurd opc (by decide)
    · by_cases x30 : field w 5 5 = 30#5
      · rw [if_pos x30, if_pos rfl, x30]
        exact blrX30_runs
      · rw [if_neg x30]
        exact blr_runs x30

/-- The filled out template of an instruction that is neither executed verbatim
nor a load of a literal into a SIMD register does what the instruction does at
its own address; after `blr x30` the scratch register holds the branch target. -/
theorem ool_part_preserves_instruction (w : Word) (s s' : State) (handler pc base : Address)
    (template : Template)
    (selected : templateSelectA64 w = some template) (special : template ≠ .generic)
    (general : ¬(wordMatches w loadLiteralPattern = true ∧ w.getLsbD 26 = true))
    (allocated : exec w (s.goto pc) = some s') :
    ∃ words, templateFillout template.code ⟨handler, pc, w⟩ = some words ∧
      (Loaded s base words → ∀ steps,
        runOol base (templateIterReturnAddress template.code ⟨handler, pc, w⟩) (steps + 4)
        (s.goto base) =
          some (if template = .blrX30 then s'.writeX 16#5 (s.x 30#5) else s')) := by
  show Runs template handler pc base w s _
  rcases select_cases selected with immediate | branch | loadStore | generic
  · obtain ⟨rfl, has⟩ := immediate_cases immediate special
    rw [exec_class has rfl] at allocated
    obtain rfl := Option.some.inj allocated
    exact adrp_runs
  · rcases branch_cases branch special with
      ⟨has, rfl⟩ | ⟨has, rfl⟩ | ⟨has, rfl⟩ | ⟨has, rfl⟩ | ⟨has, chosen⟩
    · rw [exec_class has rfl] at allocated
      obtain rfl := Option.some.inj allocated
      cases link : w.getLsbD 31 with
      | false => exact b_runs link
      | true => exact bl_runs link
    · rw [exec_class has rfl] at allocated
      obtain rfl := Option.some.inj allocated
      exact cbnz_runs
    · rw [exec_class has rfl] at allocated
      obtain rfl := Option.some.inj allocated
      exact tbnz_runs has
    · rw [exec_condBranch_space has] at allocated
      split at allocated
      · obtain rfl := Option.some.inj allocated
        exact bCond_runs ‹_›
      · simp at allocated
    · exact branchRegister_runs has chosen allocated
  · obtain ⟨has, bank, ⟨rfl, signed⟩ | ⟨rfl, unsigned⟩⟩ := loadStore_cases loadStore special general
    · rw [exec_class has rfl] at allocated
      exact ldrswLiteral_runs bank allocated signed
    · rw [exec_class has rfl] at allocated
      exact ldrLiteral_runs bank allocated unsigned
  · exact absurd generic special

/-- A memory that holds the words from `base` on, and zeros elsewhere. -/
def codeMemory (base : Address) (words : List Word) (a : Address) : BitVec 8 :=
  field (words.getD ((a - base).toNat / 4) 0) (8 * ((a - base).toNat % 4)) 8

/-- Register `x30` holds an address, the other registers hold zero, and the words stand at 0x8000. -/
def callingState (words : List Word) : State :=
  ⟨fun r => if r = 30#5 then 0x2000#64 else 0, 0, 0, ⟨false, false, false, false⟩, fun _ => 0,
    codeMemory 0x8000#64 words⟩

/-- A `ldr x1` from eight bytes ahead. -/
def loadWords : List Word := (templateFillout Template.ldrLiteral.code ⟨0x4000#64, 0x1000#64,
      0x58000041#32⟩).getD []

private theorem callingState_loaded (words : List Word)
    (small : (List.range words.length).all (fun i =>
      (callingState words).load (place 0x8000#64 (4 * i)) 4 == words.getD i 0) = true) :
    Loaded (callingState words) 0x8000#64 words := by
  intro i h
  have here := List.all_eq_true.mp small i (List.mem_range.mpr h)
  rw [beq_iff_eq] at here
  rw [here]
  simp [h]

theorem loading_template_preserves_load :
    runOol 0x8000#64 (templateIterReturnAddress Template.ldrLiteral.code ⟨0x4000#64, 0x1000#64,
      0x58000041#32⟩) 4
        ((callingState loadWords).goto 0x8000#64) =
          exec 0x58000041#32 ((callingState loadWords).goto 0x1000#64) := by
  obtain ⟨words, filled, runs⟩ :=
    ool_part_preserves_instruction 0x58000041#32 (callingState loadWords) _ 0x4000#64
    0x1000#64 0x8000#64 .ldrLiteral (by decide) (by decide) (by decide) rfl
  have same : words = loadWords := by simp [loadWords, filled]
  rw [same] at runs
  exact runs (callingState_loaded loadWords (by decide)) 0

/-- The words of the template for `blr x30`. -/
def callWords : List Word := (templateFillout Template.blrX30.code ⟨0x4000#64, 0x1000#64,
      0xd63f03c0#32⟩).getD []

theorem blr_x30_template_replaces_scratch :
    templateSelectA64 0xd63f03c0#32 = some .blrX30 ∧
      templateFillout Template.blrX30.code ⟨0x4000#64, 0x1000#64, 0xd63f03c0#32⟩ = some callWords ∧
      Loaded (callingState callWords) 0x8000#64 callWords ∧
      (runOol 0x8000#64 (templateIterReturnAddress Template.blrX30.code ⟨0x4000#64, 0x1000#64,
        0xd63f03c0#32⟩) 4
        ((callingState callWords).goto 0x8000#64)).map (·.x 16#5) = some 0x2000#64 ∧
      (exec 0xd63f03c0#32 ((callingState callWords).goto 0x1000#64)).map (·.x 16#5) = some 0#64 := by
  refine ⟨by decide, rfl, callingState_loaded callWords (by decide), by decide, by decide⟩

end Adbi.A64TemplateProofs
