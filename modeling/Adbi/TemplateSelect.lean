import Adbi.Lib.Words

/-! Which template replaces an instruction on the arm server:
`template_select_arm.c`, `template_select_thumb.c` and
`template_select_thumb32.c`. -/
namespace Adbi.TemplateSelect
open Adbi.Lib

inductive Template where
  | armGeneric | armDpRn | armDpRm | armDpRn2 | armDpRm2 | armDpRnRm | armDpRnRm2 | armDpRdRn | armDpRdRm | armDpRdRnRm
  | bA1 | blImmA1 | blxImmA2 | blxRegA1
  | thumbGeneric | adrT1 | ldrLitT1 | bT1 | bT2 | cbzT1 | blxRegT1
  | thumb2Generic | adrT2 | adrT3 | ldrLitT2 | bT3 | bT4 | blT1 | blxT2 | thumbNop
  deriving DecidableEq, Repr

/-- A selector returns a template or `NULL`, or fails an assertion. -/
inductive Selection where
  | template (template : Template)
  | null
  | assertion
  deriving DecidableEq, Repr

def isPc (reg : BitVec 4) : Bool := reg == 15#4
def isSp (reg : BitVec 4) : Bool := reg == 13#4
def isBad (reg : BitVec 4) : Bool := isSp reg || isPc reg
def isHigh (reg : BitVec 4) : Bool := 8#4 ≤ reg
def isLow (reg : BitVec 4) : Bool := !isHigh reg

/-- A sequence of `if (match(key, pattern)) return decode(insn);`. -/
def selectOn (decoders : List (Pattern × (BitVec n → Selection))) (key : BitVec k)
    (insn : BitVec n) : Selection :=
  match decodeWith decoders key with
  | some decode => decode insn
  | none => .null

/-! ## ARM -/

/-- `decode_arm_dataproc`. -/
def decodeArmDataproc (insn : BitVec 32) : Selection :=
  let opcode := (field insn 21 4).toNat
  let rd := field insn 12 4
  let rn := field insn 16 4
  let rm := field insn 0 4
  let usesRd := !(opcode = 0b1000 || opcode = 0b1001 || opcode = 0b1010 || opcode = 0b1011)  -- not tst, teq, cmp, cmn
  let usesRn := !(opcode = 0b1101 || opcode = 0b1111)  -- not mov, mvn
  if insn.getLsbD 25 then
    if !usesRn then .template .armGeneric
    else if !isPc rn then .template .armGeneric
    else if !usesRd then .template .armDpRn2
    else if isPc rd then .template .armDpRdRn
    else .template .armDpRn
  else if !usesRn then
    if isPc rm then if isPc rd then .template .armDpRdRm else .template .armDpRm
    else .template .armGeneric
  else if !usesRd then
    if isPc rn then if isPc rm then .template .armDpRnRm2 else .template .armDpRn2
    else if isPc rm then .template .armDpRm2
    else .template .armGeneric
  else if isPc rd then
    if isPc rn then if isPc rm then .template .armDpRdRnRm else .template .armDpRdRn
    else if isPc rm then .template .armDpRdRm
    else .template .armGeneric
  else if isPc rn then
    if isPc rm then .template .armDpRnRm
    else if rd = 13#4 then .null
    else if rd ≠ rm then .template .armDpRn
    else .template .armDpRn2
  else if isPc rm then
    if rd = 13#4 then .null
    else if rd ≠ rn then .template .armDpRm
    else .template .armDpRm2
  else .template .armGeneric

/-- `decode_arm_load_store`. -/
def decodeArmLoadStore (insn : BitVec 32) : Selection :=
  let load := insn.getLsbD 20
  let w := insn.getLsbD 21
  let p := insn.getLsbD 24
  let writeback := !p || (p && w)
  let rn := field insn 16 4
  let rd := field insn 12 4
  let rm := field insn 0 4
  if writeback && isPc rn then .null
  else if insn.getLsbD 25 && (isPc rm || rm = rn) then .null
  else if rd = rn && isPc rn then .null
  else if !load && isPc rd then .null
  else if isPc rn then .template .armDpRn
  else .template .armGeneric

/-- `decode_arm_load_store_multiple`. -/
def decodeArmLoadStoreMultiple (insn : BitVec 32) : Selection :=
  let regs := field insn 0 16
  let rn := field insn 16 4
  let load := insn.getLsbD 20
  let writeback := insn.getLsbD 21
  if regs = 0 then .null
  else if isPc rn then .null
  else if load then if regs.getLsbD rn.toNat && writeback then .null else .template .armGeneric
  else if regs.getLsbD 15 then .null
  else .template .armGeneric

/-- `decode_arm_load_store_extra`. -/
def decodeArmLoadStoreExtra (insn : BitVec 32) : Selection :=
  let rn := field insn 16 4
  let rd := field insn 12 4
  let immediate := insn.getLsbD 22
  if rd = rn then .null
  else if isPc rd then .null
  else if !immediate && isPc (field insn 0 4) then .null
  else if isPc rn then .template .armDpRn
  else .template .armGeneric

/-- `decode_arm_load_store_dual`. -/
def decodeArmLoadStoreDual (insn : BitVec 32) : Selection :=
  let rd := field insn 12 4
  if rd.getLsbD 0 then .null
  else if rd = 14#4 then .null
  else decodeArmLoadStoreExtra insn

/-- `decode_arm_nopc`. -/
def decodeArmNopc (usesRn usesRd usesRs usesRm : Bool) (insn : BitVec 32) : Selection :=
  if usesRn && isPc (field insn 16 4) then .null
  else if usesRd && isPc (field insn 12 4) then .null
  else if usesRs && isPc (field insn 8 4) then .null
  else if usesRm && isPc (field insn 0 4) then .null
  else .template .armGeneric

/-- `decode_arm_branch`. -/
def decodeArmBranch (insn : BitVec 32) : Selection :=
  if isPc (field insn 0 4) then .null
  else if insn.getLsbD 5 then .template .blxRegA1
  else .template .armGeneric

/-- The decoders of `template_select_arm`, in its order. -/
def armDecoders : List (Pattern × (BitVec 32 → Selection)) :=
  [("11110---------------------------", fun _ => .null),  -- undefined instruction
   ("1111100-------------------------", fun _ => .null),
   ("11111111------------------------", fun _ => .null),
   ("1111101-------------------------", fun _ => .template .blxImmA2),
   ("1111----------------------------", fun _ => .null),  -- unconditional instruction
   ("----00110-00--------------------", fun _ => .null),  -- undefined instruction
   ("----011--------------------1----", fun _ => .null),
   ("----00010-00------------0000----", decodeArmNopc false true false true),  -- move status register to register
   ("----00010-10------------0000----", decodeArmNopc false false false true),  -- move register to status register
   ("----00010010------------0001----", decodeArmBranch),  -- branch and exchange
   ("----00010110------------0001----", decodeArmNopc false true false true),  -- count leading zeros
   ("----00010010------------0011----", decodeArmBranch),  -- branch and link/exchange instruction set
   ("----00010--0------------0101----", fun _ => .null),  -- enhanced DSP add/subtract
   ("----000--------------------0----", decodeArmDataproc),  -- data processing immediate shift
   ("----000-----------------0--1----", decodeArmDataproc),  -- data processing register shift
   ("----001-------------------------", decodeArmDataproc),  -- data processing immediate
   ("----010-------------------------", decodeArmLoadStore),  -- load/store immediate offset
   ("----011--------------------0----", decodeArmLoadStore),  -- load/store register offset
   ("----100-------------------------", decodeArmLoadStoreMultiple),
   ("----1010------------------------", fun _ => .template .bA1),
   ("----1011------------------------", fun _ => .template .blImmA1),
   ("----00010010------------0111----", fun _ => .null),  -- software breakpoint
   ("----00010--0------------1--0----", fun _ => .null),  -- enhanced DSP multiply
   ("----000000--------------1001----", decodeArmNopc true true true true),  -- multiply (accumulate)
   ("----00001---------------1001----", decodeArmNopc true true true true),  -- multiply (accumulate) long
   ("----00010-00------------1001----", decodeArmNopc true true false true),  -- swap/swap byte
   ("----00011---------------1001----", decodeArmNopc true true false true),  -- load/store register exclusive
   ("----000--0--------------1011----", decodeArmLoadStoreExtra),  -- halfword, register offset
   ("----000--1--------------1011----", decodeArmLoadStoreExtra),  -- halfword, immediate offset
   ("----000--0-1------------11-1----", decodeArmLoadStoreExtra),  -- signed halfword/byte, register offset
   ("----000--1-1------------11-1----", decodeArmLoadStoreExtra),  -- signed halfword/byte, immediate offset
   ("----000--0-0------------11-1----", decodeArmLoadStoreDual),
   ("----000--1-0------------11-1----", decodeArmLoadStoreDual),
   ("----1111------------------------", fun _ => .template .armGeneric)]  -- software interrupt

/-- `template_select_arm`. -/
def templateSelectArm (insn : BitVec 32) : Selection := selectOn armDecoders insn insn

/-! ## Thumb -/

/-- `decode_thumb_ldm_stm`. -/
def decodeThumbLdmStm (insn : BitVec 16) : Selection :=
  let registerList := field insn 0 4
  let rn := field insn 8 3
  if registerList = 0 then .null
  else if registerList.getLsbD rn.toNat then .null
  else .template .thumbGeneric

/-- `decode_thumb_dp_hr_branch`. -/
def decodeThumbDpHrBranch (insn : BitVec 16) : Selection :=
  let opcode := field insn 8 2
  let rm := field insn 3 4
  let rn := field insn 7 1 ++ field insn 0 3
  match opcode.toNat with
  | 0b00 =>
    if isPc rn && isPc rm then .null
    else if !isPc rn && !isPc rm then .template .thumbGeneric
    else .null
  | 0b01 =>
    if isPc rn || isPc rm then .null
    else if isLow rn && isLow rm then .null
    else .template .thumbGeneric
  | 0b10 => if isPc rm then .null else .template .thumbGeneric
  | _ =>
    if field insn 0 3 ≠ 0 then .null
    -- bit 7 of the opcode, which has two bits
    else if opcode.getLsbD 7 then .template .blxRegT1
    else .template .thumbGeneric

/-- The miscellaneous instructions of `template_select_thumb`. -/
def thumbMiscDecoders : List (Pattern × (BitVec 16 → Selection)) :=
  [("10110000--------", fun _ => .template .thumbGeneric),  -- adjust stack pointer
   ("1011-10---------", fun _ => .template .thumbGeneric),  -- push/pop
   ("10111110--------", fun _ => .template .thumbGeneric),  -- software breakpoint
   ("1011-0-1--------", fun _ => .template .cbzT1)]

/-- The decoders of `template_select_thumb`, in its order. -/
def thumbDecoders : List (Pattern × (BitVec 16 → Selection)) :=
  [("00--------------", fun _ => .template .thumbGeneric),
   ("010000----------", fun _ => .template .thumbGeneric),  -- data processing register
   ("010001----------", decodeThumbDpHrBranch),
   ("01001-----------", fun _ => .template .ldrLitT1),
   ("0101------------", fun _ => .template .thumbGeneric),  -- load/store register offset
   ("011-------------", fun _ => .template .thumbGeneric),  -- load/store word/byte immediate offset
   ("100-------------", fun _ => .template .thumbGeneric),
   ("10101-----------", fun _ => .template .thumbGeneric),  -- add to sp
   ("10100-----------", fun _ => .template .adrT1),
   ("1011------------", fun insn => selectOn thumbMiscDecoders insn insn),
   ("1100------------", decodeThumbLdmStm),
   ("11011111--------", fun _ => .template .thumbGeneric),  -- software interrupt
   ("11011110--------", fun _ => .null),  -- permanently undefined
   ("1101------------", fun _ => .template .bT1),
   ("11101----------1", fun _ => .null),  -- undefined instruction
   ("11100-----------", fun _ => .template .bT2)]

/-- `template_select_thumb`. -/
def templateSelectThumb (insn : BitVec 16) : Selection := selectOn thumbDecoders insn insn

/-! ## Thumb, 32 bits -/

/-- `template_select_dataproc_mim`. -/
def templateSelectDataprocMim (insn : BitVec 32) : Selection :=
  let op := field insn 21 4
  let s := insn.getLsbD 20
  let rn := field insn 16 4
  let rd := field insn 8 4
  if !wordMatches insn "11110-0---------0---------------" then .assertion
  else if wordMatches op "-000" || wordMatches op "1101" || wordMatches op "0-00" then
    if isBad rn then .null
    else if isPc rd && !s then .null
    else if isSp rd then .null
    else .template .thumb2Generic
  else if wordMatches op "101-" || wordMatches op "000-" || wordMatches op "1-10" then
    if isBad rd || isBad rn then .null else .template .thumb2Generic
  else .null

/-- `template_select_dataproc_imm`. -/
def templateSelectDataprocImm (insn : BitVec 32) : Selection :=
  let op := field insn 20 5
  let rn := field insn 16 4
  let rd := field insn 8 4
  if !wordMatches insn "11110-1---------0---------------" then .assertion
  else if isBad rd then .null
  else if wordMatches op "00000" || wordMatches op "01010" then
    if isPc rn then if wordMatches op "00000" then .template .adrT3 else .template .adrT2
    else .template .thumb2Generic
  else if wordMatches op "--100" || wordMatches op "1-0-0" then
    if isBad rn then .null else .template .thumb2Generic
  else if wordMatches op "10--0" then
    if isSp rn then .null else .template .thumb2Generic
  else .null

/-- `template_select_branch_misc_ctrl`, of which the instructions of the first
kind are those with a clear bit 12. -/
def templateSelectMiscCtrl (insn : BitVec 32) : Selection :=
  let op := field insn 20 7
  let op2 := field insn 8 4
  match op.toNat with
  | 0b0111000 =>
    if wordMatches op2 "--00" then
      -- the source takes five bits for rn, of which the highest is the clear lowest one of op
      if isBad (field insn 16 4) then .null else .template .thumb2Generic
    else .null
  | 0b0111001 => .null
  | 0b0111010 => if field insn 8 3 ≠ 0 then .template .thumbNop else .null
  | 0b0111011 => .null
  | 0b111100 => .null
  | 0b0111101 => .null
  | 0b0111110 | 0b0111111 =>
    if !wordMatches insn "11110011111011111000----00000000" then .null
    else if isBad (field insn 8 4) then .null
    else .template .thumb2Generic
  | 0b1111111 => .null
  | _ => if wordMatches op "-111---" then .assertion else .template .bT3

/-- `template_select_branch_misc_ctrl`. -/
def templateSelectBranchMiscCtrl (insn : BitVec 32) : Selection :=
  if !wordMatches insn "11110-----------1---------------" then .assertion
  else match (field insn 12 3).toNat with
  | 0b000 | 0b010 => templateSelectMiscCtrl insn
  | 0b001 | 0b011 => .template .bT4
  | 0b100 | 0b110 => .template .blxT2
  | _ => .template .blT1

/-- `bits_count`. -/
def bitsCount (value : BitVec n) : Nat := (List.range n).countP value.getLsbD

/-- `template_select_ldm_stm`. -/
def templateSelectLdmStm (insn : BitVec 32) : Selection :=
  let op := field insn 23 2
  let rn := field insn 16 4
  let regs := field insn 0 16
  let w := insn.getLsbD 21
  let l := insn.getLsbD 20
  let sp := regs.getLsbD 13
  let lr := regs.getLsbD 14
  let pc := regs.getLsbD 15
  if !wordMatches insn "1110100--0----------------------" then .assertion
  else if op = 0b00#2 || op = 0b11#2 then .null
  else if bitsCount regs < 2 then .null
  else if isPc rn then .null
  else if l && ((pc && lr) || sp) then .null
  else if !l && (pc || sp) then .null
  else if w && regs.getLsbD rn.toNat then .null
  else .template .thumb2Generic

/-- `template_select_ldr`. -/
def templateSelectLdr (insn : BitVec 32) : Selection :=
  let op1 := field insn 23 2
  let op2 := field insn 6 6
  let rn := field insn 16 4
  let rt := field insn 12 4
  if !wordMatches insn "1111100--101--------------------" then .assertion
  else if !wordMatches op1 "0-" then .null
  else if isPc rn then if !isPc rt then .template .ldrLitT2 else .null
  else if op1 = 0b00#2 && op2 = 0b000000#6 then
    if isBad (field insn 0 4) then .null else .template .thumb2Generic
  else if op1 = 0b01#2 then .template .thumb2Generic
  else if op1 = 0b00#2 && (wordMatches op2 "1--1--" || wordMatches op2 "1100--") then
    let p := insn.getLsbD 10
    let u := insn.getLsbD 9
    let w := insn.getLsbD 8
    if !p && !w then .null
    else if w && rn = rt then .null
    else if p && u && !w && isBad rt then .null
    else .template .thumb2Generic
  else .null

/-- `template_select_str`. -/
def templateSelectStr (insn : BitVec 32) : Selection :=
  let op1 := field insn 21 3
  let op2 := field insn 6 6
  let rn := field insn 16 4
  let rt := field insn 12 4
  if !wordMatches insn "11111000---0--------------------" then .assertion
  else if isPc rn then .null
  else if if wordMatches op1 "-10" then isPc rt else isBad rt then .null
  else if wordMatches op1 "00-" || wordMatches op1 "0-0" then
    if wordMatches op2 "000000" then
      if isBad (field insn 0 4) then .null else .template .thumb2Generic
    else if wordMatches op2 "1--1--" || wordMatches op2 "11----" then
      let p := insn.getLsbD 10
      let w := insn.getLsbD 8
      if !p && !w then .null
      else if w && rn = rt then .null
      else .template .thumb2Generic
    else .null
  else if wordMatches op1 "-0-" || wordMatches op1 "--0" then .template .thumb2Generic
  else .null

/-- `template_select_dataproc_shr`. -/
def templateSelectDataprocShr (insn : BitVec 32) : Selection :=
  let op := field insn 21 4
  let s := insn.getLsbD 20
  let rn := field insn 16 4
  let rd := field insn 8 4
  let rm := field insn 0 4
  if !wordMatches insn "1110101-------------------------" then .assertion
  else if wordMatches op "-000" || wordMatches op "1101" || wordMatches op "0-00" then
    if isBad rn || isBad rm then .null
    else if isPc rd && !s then .null
    else if isSp rd then .null
    else .template .thumb2Generic
  else if wordMatches op "101-" || wordMatches op "000-" || wordMatches op "-110" then
    if isBad rd || isBad rm || isBad rn then .null else .template .thumb2Generic
  else .null

/-- `template_select_dataproc_reg`. -/
def templateSelectDataprocReg (insn : BitVec 32) : Selection :=
  let rn := field insn 16 4
  let rd := field insn 8 4
  let rm := field insn 0 4
  let op1 := field insn 20 4
  let op2 := field insn 4 4
  if !wordMatches insn "11111010------------------------" then .assertion
  else if field insn 12 4 ≠ 0b1111#4 then .null
  else if wordMatches op1 "0---" && wordMatches op2 "0000" then
    if isBad rd || isBad rm || isBad rn then .null else .template .thumb2Generic
  else if wordMatches op2 "1---" && op1 ≤ 0b0101#4 then
    if isBad rd || isBad rm then .null else .template .thumb2Generic
  else if wordMatches op1 "1---" && wordMatches op2 "0---" then
    -- parallel addition and subtraction
    if !wordMatches insn "111110101-------1111----0-------" then .assertion
    else if field insn 4 2 = 0b11#2 then .null
    else if wordMatches (field insn 20 3) "-11" then .null
    else if isBad rd || isBad rm || isBad rn then .null
    else .template .thumb2Generic
  else if wordMatches op1 "10--" && wordMatches op2 "10--" then
    -- miscellaneous operations
    if !wordMatches insn "1111101010------1111----10------" then .assertion
    else if wordMatches (field insn 20 2) "1-" && field insn 4 2 ≠ 0b00#2 then .null
    else if isBad rd || isBad rm || isBad rn then .null
    else .template .thumb2Generic
  else .null

/-- `template_select_mul`. -/
def templateSelectMul (insn : BitVec 32) : Selection :=
  let op12 := field insn 20 3 ++ field insn 4 2
  let rn := field insn 16 4
  let rm := field insn 0 4
  let ra := field insn 12 4
  let rd := field insn 8 4
  if !wordMatches insn "111110110-----------------------" then .assertion
  else if field insn 6 2 ≠ 0b00#2 then .null
  else if isPc rn || isPc rm || isPc ra || isPc rd then .null
  else if (wordMatches op12 "001--" || wordMatches op12 "---0-") && !wordMatches op12 "11101" then
    .template .thumb2Generic
  else .null

/-- `template_select_mull`. -/
def templateSelectMull (insn : BitVec 32) : Selection :=
  -- the two opcodes overlap in one bit
  let op12 := (field insn 20 3).setWidth 32 <<< 3 ||| (field insn 4 4).setWidth 32
  let rn := field insn 16 4
  let rm := field insn 0 4
  let rdlo := field insn 12 4
  let rdhi := field insn 8 4
  if !wordMatches insn "111110111-----------------------" then .assertion
  else if isPc rn || isPc rm || isPc rdlo || isPc rdhi then .null
  else if wordMatches op12 "10-110-" || wordMatches op12 "1100110" || wordMatches op12 "10010--" ||
      wordMatches op12 "--00000" || wordMatches op12 "0-11111" then
    .template .thumb2Generic
  else .null

/-- `is_thumb2_halfword`. -/
def isThumb2Halfword (insn : BitVec 16) : Bool := 0xe800#16 ≤ insn &&& 0xf800#16

/-- `template_select_thumb32`. -/
def templateSelectThumb32 (insn : BitVec 32) : Selection :=
  let op2 := field insn 20 7
  if !isThumb2Halfword (field insn 16 16) then .assertion
  else match (field insn 27 2).toNat with
  | 0b01 =>
    selectOn [("1------", fun _ => .null), ("01-----", templateSelectDataprocShr),
      ("00--0--", templateSelectLdmStm),
      ("00--1--", fun _ => .null)] op2 insn
  | 0b10 =>
    if insn.getLsbD 15 then templateSelectBranchMiscCtrl insn
    else if wordMatches op2 "-0-----" then templateSelectDataprocMim insn
    else templateSelectDataprocImm insn
  | 0b11 =>
    selectOn [("000---0", templateSelectStr), ("001---0", fun _ => .null), ("00--001", fun _ => .null),
      ("00--011", fun _ => .null), ("00--101", templateSelectLdr),
      ("010----", templateSelectDataprocReg),
      ("0110---", templateSelectMul), ("0111---", templateSelectMull),
      ("1------", fun _ => .null)] op2 insn
  | _ => .assertion

end Adbi.TemplateSelect
