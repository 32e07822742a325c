import Adbi.A32
import Adbi.Lib.Leaving

/-! The data processing instructions of ARM, and the runs of code with them and the
instructions of `A32`. What the architecture leaves UNPREDICTABLE has no effect
here. -/
namespace Adbi.A32Alu
open Adbi.Lib Adbi.A32
open Adbi.A64 (Flags condHolds)

/-! ## Operands -/

/-- `Shift_C`: the value shifted by an amount, and the carry out. -/
def shiftC (kind : BitVec 2) (value : Word) (amount : Nat) (carry : Bool) : Word × Bool :=
  if amount = 0 then (value, carry)
  else match kind.toNat with
    | 0 => (value <<< amount, decide (amount ≤ 32) && value.getLsbD (32 - amount))
    | 1 => (value >>> amount, value.getLsbD (amount - 1))
    | 2 => (value.sshiftRight amount, value.getLsbD (min (amount - 1) 31))
    | _ => (value.rotateRight amount, (value.rotateRight amount).getLsbD 31)

/-- A register shifted by an immediate amount, of which some stand for others. -/
def immediateShift (w value : Word) (carry : Bool) : Word × Bool :=
  let imm := (field w 7 5).toNat
  match (field w 5 2).toNat with
  | 0 => shiftC 0 value imm carry
  | 1 => shiftC 1 value (if imm = 0 then 32 else imm) carry
  | 2 => shiftC 2 value (if imm = 0 then 32 else imm) carry
  | _ =>
    if imm = 0 then (BitVec.ofBool carry ++ field value 1 31, value.getLsbD 0)
      else shiftC 3 value imm carry

/-- The second operand, of the values of the registers `rm` and `rs`. -/
def secondOperand (w rm rs : Word) (carry : Bool) : Word × Bool :=
  if w.getLsbD 25 then shiftC 3 ((field w 0 8).setWidth 32) (2 * (field w 8 4).toNat) carry
  else if w.getLsbD 4 then shiftC (field w 5 2) rm (field rs 0 8).toNat carry
  else immediateShift w rm carry

/-- `AddWithCarry`: the sum, the carry out and the overflow. -/
def addWithCarry (x y : Word) (carry : Bool) : Word × Bool × Bool :=
  let sum := BitVec.ofNat 32 (x.toNat + y.toNat + carry.toNat)
  (sum, decide (sum.toNat ≠ x.toNat + y.toNat + carry.toNat),
    decide (sum.toInt ≠ x.toInt + y.toInt + carry.toNat))

/-! ## Operations -/

/-- The result of an operation, with the carry and the overflow. -/
def alu (opcode : BitVec 4) (a b : Word) (carry : Bool) (flags : Flags) : Word × Bool × Bool :=
  match opcode.toNat with
  | 0b0000 | 0b1000 => (a &&& b, carry, flags.v)  -- and, tst
  | 0b0001 | 0b1001 => (a ^^^ b, carry, flags.v)  -- eor, teq
  | 0b0010 | 0b1010 => addWithCarry a (~~~b) true  -- sub, cmp
  | 0b0011 => addWithCarry (~~~a) b true  -- rsb
  | 0b0100 | 0b1011 => addWithCarry a b false  -- add, cmn
  | 0b0101 => addWithCarry a b flags.c  -- adc
  | 0b0110 => addWithCarry a (~~~b) flags.c  -- sbc
  | 0b0111 => addWithCarry (~~~a) b flags.c  -- rsc
  | 0b1100 => (a ||| b, carry, flags.v)  -- orr
  | 0b1101 => (b, carry, flags.v)  -- mov
  | 0b1110 => (a &&& ~~~b, carry, flags.v)  -- bic
  | _ => (~~~b, carry, flags.v)  -- mvn

/-- The result of the instruction and the flags it may set, of the values of the registers it reads. -/
def operate (w rn rm rs : Word) (flags : Flags) : Word × Flags :=
  let operand := secondOperand w rm rs flags.c
  let result := alu (field w 21 4) rn operand.1 operand.2 flags
  (result.1, ⟨result.1.msb, result.1 == 0#32, result.2.1, result.2.2⟩)

def opcode (w : Word) : BitVec 4 := field w 21 4
def rd (w : Word) : BitVec 4 := field w 12 4
def rn (w : Word) : BitVec 4 := field w 16 4
def rm (w : Word) : BitVec 4 := field w 0 4
def rs (w : Word) : BitVec 4 := field w 8 4
def setsFlags (w : Word) : Bool := w.getLsbD 20

/-- All but `tst`, `teq`, `cmp` and `cmn` have a result. -/
def usesRd (w : Word) : Bool := field w 23 2 != 0b10#2

/-- All but `mov` and `mvn` have a first operand. -/
def usesRn (w : Word) : Bool := opcode w != 0b1101#4 && opcode w != 0b1111#4

def usesRm (w : Word) : Bool := !w.getLsbD 25

def usesRs (w : Word) : Bool := !w.getLsbD 25 && w.getLsbD 4

/-- The instruction is one of these and not UNPREDICTABLE: a comparison sets the flags,
a field that is not used is zero, no flags are set when the result goes to the pc, and
the pc is no operand where the shift is by a register. -/
def predictable (w : Word) : Bool :=
  (usesRd w || setsFlags w && rd w == 0#4) && (usesRn w || rn w == 0#4) &&
    !(usesRd w && rd w == 15#4 && setsFlags w) &&
    !(usesRs w && (rd w == 15#4 || rn w == 15#4 || rm w == 15#4 || rs w == 15#4))

/-- A data processing instruction whose condition holds. -/
def execDataProcessing (w : Word) (s : State) : Option State :=
  if !predictable w then none
  else
    let result := operate w (s.readR (rn w)) (s.readR (rm w)) (s.readR (rs w)) s.flags
    let t := if setsFlags w then { s with flags := result.2 } else s
    if !usesRd w then some (nextArm t)
    else if rd w = 15#4 then t.bxWritePc result.1
    else some (nextArm (t.writeR (rd w) result.1))

def immediatePattern : Pattern := "----001-------------------------"
def immediateShiftPattern : Pattern := "----000--------------------0----"
def registerShiftPattern : Pattern := "----000-----------------0--1----"

/-- The encodings of the data processing instructions, which hold others as well. -/
def isDataProcessing (w : Word) : Bool :=
  wordMatches w immediatePattern || wordMatches w immediateShiftPattern ||
    wordMatches w registerShiftPattern

/-- The effect of an ARM instruction at the pc. -/
def execArm (w : Word) (s : State) : Option State :=
  if isDataProcessing w && !wordMatches w blxRegPattern then
    if field w 28 4 = 15#4 then none
    else if condHolds (field w 28 4) s.flags then execDataProcessing w s
    else some (nextArm s)
  else A32.execArm w s

/-! ## Running -/

/-- The effect of the instruction that stands at the pc. -/
def step (s : State) : Option State := if s.thumb then A32.step s else execArm (s.load s.pc) s

/-- The instruction at the pc is one that loads the pc or computes it. -/
def leaves (s : State) : Bool :=
  loadsPc s ||
    (!s.thumb && isDataProcessing (s.load s.pc) && usesRd (s.load s.pc) && rd (s.load s.pc) == 15#4 &&
      condHolds (field (s.load s.pc) 28 4) s.flags)

/-- Run code up to the instruction that leaves it through the pc. -/
def runOol : Nat → State → Option State := runUntil step leaves

/-! ## The patched instruction -/

/-- The two words are the same but for the condition and for registers that the instructions do not
have to share. -/
structure SameOperation (w w' : Word) : Prop where
  operation : field w' 20 6 = field w 20 6
  shift : field w' 4 8 = field w 4 8
  immediate : usesRm w = false → field w' 0 4 = field w 0 4

namespace SameOperation

variable {w w' : Word}

private theorem inner (same : SameOperation w w') (low k : Nat) (inside : 20 ≤ low ∧ low + k ≤ 26) :
    field w' low k = field w low k := by
  have part (v : Word) : field v low k = field (field v 20 6) (low - 20) k := by
    ext i h
    simp [field]
    grind
  rw [part w', same.operation, ← part]

private theorem innerShift (same : SameOperation w w') (low k : Nat)
    (inside : 4 ≤ low ∧ low + k ≤ 12) : field w' low k = field w low k := by
  have part (v : Word) : field v low k = field (field v 4 8) (low - 4) k := by
    ext i h
    simp [field]
    grind
  rw [part w', same.shift, ← part]

private theorem bit (same : SameOperation w w') (i : Nat) (inside : 20 ≤ i ∧ i < 26) :
    w'.getLsbD i = w.getLsbD i := by
  have here := same.inner i 1 (by omega)
  rw [field_bit w] at here
  exact field_bit_iff.mp here

theorem setsFlags (same : SameOperation w w') : setsFlags w' = setsFlags w := same.bit 20 (by decide)

theorem usesRd (same : SameOperation w w') : usesRd w' = usesRd w := by
  rw [A32Alu.usesRd, same.inner 23 2 (by decide), A32Alu.usesRd]

theorem usesRm (same : SameOperation w w') : usesRm w' = usesRm w := by
  rw [A32Alu.usesRm, same.bit 25 (by decide), A32Alu.usesRm]

theorem opcode (same : SameOperation w w') : opcode w' = opcode w := same.inner 21 4 (by decide)

theorem usesRn (same : SameOperation w w') : usesRn w' = usesRn w := by
  rw [A32Alu.usesRn, same.opcode, A32Alu.usesRn]

theorem usesRs (same : SameOperation w w') : usesRs w' = usesRs w := by
  have four : w'.getLsbD 4 = w.getLsbD 4 := by
    have here := same.innerShift 4 1 (by decide)
    rw [field_bit w] at here
    exact field_bit_iff.mp here
  rw [A32Alu.usesRs, same.bit 25 (by decide), four, A32Alu.usesRs]

private theorem secondOperand_eq (same : SameOperation w w') {m m' r r' : Word}
    (second : A32Alu.usesRm w = true → m' = m)
    (shift : A32Alu.usesRs w = true → r' = r) (carry : Bool) :
    secondOperand w' m' r' carry = secondOperand w m r carry := by
  have immediate := same.bit 25 (by decide)
  have rotation := same.innerShift 8 4 (by decide)
  have amount := same.innerShift 7 5 (by decide)
  have kind := same.innerShift 5 2 (by decide)
  have byRegister : w'.getLsbD 4 = w.getLsbD 4 := by
    have here := same.innerShift 4 1 (by decide)
    rw [field_bit w] at here
    exact field_bit_iff.mp here
  simp only [secondOperand, immediate, byRegister, immediateShift, amount, kind, rotation]
  cases imm : w.getLsbD 25 with
  | true =>
    have low : field w' 0 8 = field w 0 8 := by
      have parts (v : Word) : field v 0 8 = field v 4 4 ++ field v 0 4 := by
        ext i h
        simp [field]
        grind
      rw [parts w', same.innerShift 4 4 (by decide),
        same.immediate (by rw [A32Alu.usesRm, imm]; rfl), ← parts]
    rw [low, if_pos rfl, if_pos rfl]
  | false =>
    rw [second (by rw [A32Alu.usesRm, imm]; rfl)]
    cases four : w.getLsbD 4 with
    | true =>
      rw [shift (by rw [A32Alu.usesRs, imm, four]; rfl)]
      simp only [Bool.false_eq_true, ↓reduceIte]
    | false => rfl

private theorem alu_without_first {w : Word} (unused : A32Alu.usesRn w = false) (a a' b : Word)
    (carry : Bool) (flags : Flags) :
    alu (A32Alu.opcode w) a' b carry flags = alu (A32Alu.opcode w) a b carry flags := by
  have moves : A32Alu.opcode w = 0b1101#4 ∨ A32Alu.opcode w = 0b1111#4 := by
    rw [A32Alu.usesRn, Bool.and_eq_false_iff] at unused
    simpa using unused
  rcases moves with mov | mvn
  · rw [mov]
    rfl
  · rw [mvn]
    rfl

/-- The same operation on the same values, where it uses them, has the same result. -/
theorem operate_eq (same : SameOperation w w') {n n' m m' r r' : Word}
    (first : A32Alu.usesRn w = true → n' = n)
    (second : A32Alu.usesRm w = true → m' = m) (shift : A32Alu.usesRs w = true → r' = r)
    (flags : Flags) :
    operate w' n' m' r' flags = operate w n m r flags := by
  have operands : alu (field w' 21 4) n' (secondOperand w' m' r' flags.c).1
      (secondOperand w' m' r' flags.c).2 flags =
      alu (field w 21 4) n (secondOperand w m r flags.c).1 (secondOperand w m r flags.c).2 flags := by
    rw [same.secondOperand_eq second shift, show field w' 21 4 = field w 21 4 from same.opcode]
    cases used : A32Alu.usesRn w with
    | true => rw [first used]
    | false => exact alu_without_first used _ _ _ _ _
  simp only [operate, operands]

end SameOperation

end Adbi.A32Alu
