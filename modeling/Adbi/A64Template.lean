import Adbi.A64

/-! The templates of `arch/arm64`: which one replaces an instruction
(`template_select.c`), the code that executes it out of line (`templates/*.S`,
from the label `ool` on), how the template is filled out and where its return
sites lead (`template.c`). -/
namespace Adbi.A64Template
open Adbi.Lib Adbi.A64

inductive Template where
  | adrp | b | bl | bCond | cbnz | tbnz | br | blr | blrX30 | ldrLiteral | ldrswLiteral | generic
  deriving DecidableEq, Repr

/-- `decode_a64_data_processing_immediate`. -/
def decodeA64DataProcessingImmediate (insn : Word) : Option Template :=
  if wordMatches insn "---10000------------------------" then some .adrp else some .generic

/-- `decode_a64_branch_exception_system`. -/
def decodeA64BranchExceptionSystem (insn : Word) : Option Template :=
  if wordMatches insn "-00101--------------------------" then
    if insn.getLsbD 31 then some .bl else some .b
  else if wordMatches insn "-011010-------------------------" then some .cbnz
  else if wordMatches insn "-011011-------------------------" then some .tbnz
  else if wordMatches insn "0101010-------------------------" then some .bCond
  else if wordMatches insn "11010100------------------------" then some .generic
  else if wordMatches insn "1101010100----------------------" then some .generic
  else if wordMatches insn "1101011-------------------------" then
    match (field insn 21 4).toNat with
    | 0b0000 => some .br
    | 0b0010 => some .br
    | 0b0001 => if field insn 5 5 = 30#5 then some .blrX30 else some .blr
    | 0b0100 => some .generic
    | 0b0101 => some .generic
    | _ => none
  else none

/-- `decode_a64_load_store`. -/
def decodeA64LoadStore (insn : Word) : Option Template :=
  if wordMatches insn "--011-00------------------------" then
    let opc := field insn 30 2
    let v := insn.getLsbD 26
    if opc = 0b11#2 && !v then none
    else if opc = 0b10#2 && !v then some .ldrswLiteral
    else some .ldrLiteral
  else some .generic

/-- `template_select_a64`. -/
def templateSelectA64 (insn : Word) : Option Template :=
  if wordMatches insn "---00---------------------------" then none
  else if wordMatches insn "---100--------------------------" then decodeA64DataProcessingImmediate insn
  else if wordMatches insn "---101--------------------------" then decodeA64BranchExceptionSystem insn
  else if wordMatches insn "----1-0-------------------------" then decodeA64LoadStore insn
  else if wordMatches insn "----101-------------------------" then some .generic
  else if wordMatches insn "----111-------------------------" then none
  else none

/-! ## Template code -/

/-- The kinds of fields that a template has. -/
inductive Field where
  | handlerAddress | nextPc | insn | adrpResult | relativeImm19Addr | relativeImm26Addr
  | patchCond | patchSf2sf | patchOp2op | patchRn2rn | patchRt2rt | patchRn2rt | patchB40ToB40 | patchLdrSizeLit2reg
  | handlerReturn | handlerReturnToImm26 | handlerReturnToImm19 | handlerReturnToImm14
  deriving DecidableEq, Repr

/-- `template_t`: the words from the label `ool` on, with the fields in them and their
offsets in bytes. A word of the constants is two words here. -/
structure Code where
  words : List Word
  fields : List (Field × Nat)

/-- `BADADDR`. -/
def badaddr : List Word := [0xbaadcafe#32, 0xdeadbeef#32]

def Template.code : Template → Code
  | .adrp =>
    ⟨[0x58000050#32,      -- ldr x16, tf_adrp_result
      0#32] ++ badaddr ++ badaddr ++ badaddr,
     [(.patchRt2rt, 0), (.handlerReturn, 4), (.adrpResult, 8), (.handlerAddress, 16), (.nextPc, 24)]⟩
  | .b =>
    ⟨[0#32] ++ badaddr ++ badaddr, [(.handlerReturnToImm26, 0), (.handlerAddress, 4), (.nextPc, 12)]⟩
  | .bl =>
    ⟨[0x5800009e#32,      -- ldr x30, tf_next_pc
      0#32] ++ badaddr ++ badaddr,
     [(.handlerReturnToImm26, 4), (.handlerAddress, 8), (.nextPc, 16)]⟩
  | .bCond =>
    ⟨[0x5400004e#32,      -- b.al yes
      0#32, 0#32] ++ badaddr ++ badaddr,
     [(.patchCond, 0), (.handlerReturn, 4), (.handlerReturnToImm19, 8), (.handlerAddress, 12),
       (.nextPc, 20)]⟩
  | .cbnz =>
    ⟨[0xb4000050#32,      -- cbz x16, yes
      0#32, 0#32] ++ badaddr ++ badaddr,
     [(.patchOp2op, 0), (.patchRt2rt, 0), (.patchSf2sf, 0), (.handlerReturn, 4),
       (.handlerReturnToImm19, 8),
      (.handlerAddress, 12), (.nextPc, 20)]⟩
  | .tbnz =>
    ⟨[0x36000050#32,      -- tbz x16, #0, yes
      0#32, 0#32] ++ badaddr ++ badaddr,
     [(.patchB40ToB40, 0), (.patchOp2op, 0), (.patchRt2rt, 0), (.patchSf2sf, 0), (.handlerReturn, 4),
      (.handlerReturnToImm14, 8), (.handlerAddress, 12), (.nextPc, 20)]⟩
  | .br => ⟨[0xd61f0200#32] ++ badaddr ++ badaddr,  -- br x16
     [(.patchRn2rn, 0), (.handlerAddress, 4), (.nextPc, 12)]⟩
  | .blr =>
    ⟨[0x5800009e#32,      -- ldr x30, tf_next_pc
      0xd61f0200#32] ++ badaddr ++ badaddr,  -- br x16
     [(.patchRn2rn, 4), (.handlerAddress, 8), (.nextPc, 16)]⟩
  | .blrX30 =>
    ⟨[0xaa1e03f0#32,      -- mov x16, x30
      0x5800009e#32,      -- ldr x30, tf_next_pc
      0xd61f0200#32] ++ badaddr ++ badaddr,  -- br x16
     [(.handlerAddress, 12), (.nextPc, 20)]⟩
  | .ldrLiteral =>
    ⟨[0x58000070#32,      -- ldr x16, tf_relative_imm19_addr
      0xf9400210#32,      -- ldr x16, [x16]
      0#32] ++ badaddr ++ badaddr ++ badaddr,
     [(.patchRt2rt, 0), (.patchLdrSizeLit2reg, 4), (.patchRn2rt, 4), (.patchRt2rt, 4),
       (.handlerReturn, 8),
      (.relativeImm19Addr, 12), (.handlerAddress, 20), (.nextPc, 28)]⟩
  | .ldrswLiteral =>
    ⟨[0x58000070#32,      -- ldr x16, tf_relative_imm19_addr
      0xb9800210#32,      -- ldrsw x16, [x16]
      0#32] ++ badaddr ++ badaddr ++ badaddr,
     [(.patchRt2rt, 0), (.patchRn2rt, 4), (.patchRt2rt, 4), (.handlerReturn, 8),
       (.relativeImm19Addr, 12),
      (.handlerAddress, 20), (.nextPc, 28)]⟩
  | .generic =>
    ⟨[0xd503201f#32,      -- nop
      0#32] ++ badaddr ++ badaddr,
     [(.insn, 0), (.handlerReturn, 4), (.handlerAddress, 8), (.nextPc, 16)]⟩

/-! ## Filling out -/

/-- `template_values_t`, less what no field uses. -/
structure Values where
  handlerAddress : Address
  pc : Address
  insn : Word

def insertU32 (words : List Word) (offset : Nat) (value : Word) : List Word :=
  words.set (offset / 4) value

def insertU64 (words : List Word) (offset : Nat) (value : BitVec 64) : List Word :=
  insertU32 (insertU32 words offset (field value 0 32)) (offset + 4) (field value 32 32)

/-- `patch_insn_a64`. -/
def patchInsnA64 (words : List Word) (offset : Nat) (mask src : Word) : List Word :=
  insertU32 words offset (patch mask (words.getD (offset / 4) 0) src)

/-- A displacement of `bits` bits, below a sign bit of this weight, added to `dst`. -/
def addDisplacement (dst : Address) (imm sign extension : BitVec 64) : Address :=
  if imm &&& sign != 0 then dst - (~~~(imm ||| extension) + 1) else dst + imm

def imm26 (insn : Word) : BitVec 64 := ((insn &&& 0x03ffffff#32) <<< 2).setWidth 64
def imm19 (insn : Word) : BitVec 64 := ((insn &&& 0x00ffffe0#32) >>> 3).setWidth 64
def imm14 (insn : Word) : BitVec 64 := ((insn &&& 0x0007ffe0#32) >>> 3).setWidth 64

/-- The value of `tf_adrp_result`. -/
def adrpResult (pc : Address) (insn : Word) : BitVec 64 :=
  let imm := (((insn &&& 0x00ffffe0#32) >>> 3) ||| ((insn &&& 0x60000000#32) >>> 29)).setWidth 64
  let imm := if imm &&& 0x100000#64 != 0 then imm ||| 0xfffffffffff00000#64 else imm
  if insn &&& 0x80000000#32 != 0 then (pc &&& ~~~0xfff#64) + (imm <<< 12) else pc + imm

/-- One field of `template_fillout`; a failed assertion has no result. -/
def fillField (values : Values) (words : List Word) (offset : Nat) : Field → Option (List Word)
  | .handlerAddress => some (insertU64 words offset values.handlerAddress)
  | .nextPc => some (insertU64 words offset (values.pc + 4))
  | .insn => some (insertU32 words offset values.insn)
  | .adrpResult => some (insertU64 words offset (adrpResult values.pc values.insn))
  | .relativeImm19Addr =>
    some (insertU64 words offset (addDisplacement values.pc (imm19 values.insn) 0x100000#64
      0xfffffffffff00000#64))
  | .relativeImm26Addr =>
    some (insertU64 words offset (addDisplacement values.pc (imm26 values.insn) 0x08000000#64
      0xfffffffff8000000#64))
  | .patchCond =>
    if wordMatches values.insn "01010100-------------------0----" then
      some (patchInsnA64 words offset 0xf#32 values.insn)
    else none
  | .patchSf2sf => some (patchInsnA64 words offset 0x80000000#32 values.insn)
  | .patchOp2op => some (patchInsnA64 words offset 0x01000000#32 values.insn)
  | .patchRn2rn => some (patchInsnA64 words offset 0x000003e0#32 values.insn)
  | .patchRt2rt => some (patchInsnA64 words offset 0x0000001f#32 values.insn)
  | .patchRn2rt => some (patchInsnA64 words offset 0x000003e0#32 (values.insn <<< 5))
  | .patchB40ToB40 =>
    if wordMatches values.insn "-011011-------------------------" then
      some (patchInsnA64 words offset 0x80f80000#32 values.insn)
    else none
  | .patchLdrSizeLit2reg => some (patchInsnA64 words offset 0x40000000#32 values.insn)
  | .handlerReturn | .handlerReturnToImm26 | .handlerReturnToImm19 | .handlerReturnToImm14 => some words

/-- `template_fillout`. -/
def templateFillout (template : Code) (values : Values) : Option (List Word) :=
  template.fields.foldlM (fun words field => fillField values words field.2 field.1) template.words

/-- One field of `template_iter_return_address`: the offset of a return site and where it leads. -/
def returnSite (values : Values) (field : Field × Nat) : Option (Nat × Address) :=
  match field.1 with
  | .handlerReturn => some (field.2, values.pc + 4)
  | .handlerReturnToImm26 =>
    some (field.2, addDisplacement values.pc (imm26 values.insn) 0x08000000#64 0xfffffffff8000000#64)
  | .handlerReturnToImm19 =>
    some (field.2, addDisplacement values.pc (imm19 values.insn) 0x00100000#64 0xfffffffffff00000#64)
  | .handlerReturnToImm14 =>
    some (field.2, addDisplacement values.pc (imm14 values.insn) 0x00008000#64 0xffffffffffff8000#64)
  | _ => none

/-- `template_iter_return_address`, with what the callback is called for. -/
def templateIterReturnAddress (template : Code) (values : Values) : List (Nat × Address) :=
  template.fields.filterMap (returnSite values)

/-! ## Executing out of line -/

/-- The address at an offset in the template. -/
def place (base : Address) (offset : Nat) : Address := base + BitVec.ofNat 64 offset

/-- The words stand in memory from `base` on. -/
def Loaded (s : State) (base : Address) (words : List Word) : Prop :=
  ∀ i, (h : i < words.length) → s.load (place base (4 * i)) 4 = words.get ⟨i, h⟩

/-- Run from the `ool` part on: up to a return site, which leads back, or a
branch to an address in a register. -/
def runOol (base : Address) (sites : List (Nat × Address)) : Nat → State → Option State
  | 0, _ => none
  | steps + 1, s =>
    match sites.find? fun site => s.pc = place base site.1 with
    | some site => some (s.goto site.2)
    | none =>
      match exec (s.load s.pc 4) s with
      | none => none
      | some s' => if indirect (s.load s.pc 4) then some s' else runOol base sites steps s'

end Adbi.A64Template
