import Adbi.A32
import Adbi.Lib.Leaving

/-! The instructions of two halfwords that the Thumb templates of `arch/arm` replace
or are made of, outside of an IT block, and the runs of code with them. What the
architecture leaves UNPREDICTABLE has no effect here, and neither has an encoding
that is not among these. -/
namespace Adbi.T32
open Adbi.Lib Adbi.A32
open Adbi.A64 (condHolds)

/-- On to the next instruction. -/
def nextWide (s : State) : State := s.goto (s.pc + 4#32)

/-- `adr.w`, with the offset added to the pc or subtracted from it. -/
def execAdrWide (up : Bool) (w : Word) (s : State) : Option State :=
  let d := field w 8 4
  let imm := (field w 26 1 ++ field w 12 3 ++ field w 0 8).setWidth 32
  if d = sp ∨ d = 15#4 then none
  else some (nextWide (s.writeR d (if up then align s.readPc + imm else align s.readPc - imm)))

/-- `ldr.w` with an immediate offset. -/
def execLoadWide (w : Word) (s : State) : Option State :=
  let t := field w 12 4
  let address := s.readR (field w 16 4) + (field w 0 12).setWidth 32
  if t = 15#4 then if address &&& 3#32 = 0#32 then s.bxWritePc (s.load address) else none
  else some (nextWide (s.writeR t (s.load address)))

/-- `SignExtend(S:J2:J1:imm6:imm11:'0')`. -/
def conditionalOffset (w : Word) : Word :=
  (field w 26 1 ++ field w 11 1 ++ field w 13 1 ++ field w 16 6 ++ field w 0 11 ++ 0#1).signExtend 32

/-- `SignExtend(S:I1:I2:imm10:imm11:'0')`, with `I1 = NOT(J1 EOR S)` and `I2 = NOT(J2 EOR S)`. -/
def branchOffset (w : Word) : Word :=
  let s := field w 26 1
  let i1 := ~~~(field w 13 1 ^^^ s)
  let i2 := ~~~(field w 11 1 ^^^ s)
  (s ++ i1 ++ i2 ++ field w 16 10 ++ field w 0 11 ++ 0#1).signExtend 32

/-- The conditional branch; two of the conditions stand for other instructions. -/
def execCondBranchWide (w : Word) (s : State) : Option State :=
  if field w 23 3 = 7#3 then none
  else if condHolds (field w 22 4) s.flags then some (s.branchWritePc (s.readPc + conditionalOffset w))
  else some (nextWide s)

/-- `b.w`. -/
def execBranchWide (w : Word) (s : State) : State := s.branchWritePc (s.readPc + branchOffset w)

/-- The return address, with the bit for the Thumb instruction set. -/
def linked (s : State) : State := s.writeR lr (s.readPc ||| 1#32)

/-- `bl`. -/
def execBl (w : Word) (s : State) : State := (linked s).branchWritePc (s.readPc + branchOffset w)

/-- `blx` with an immediate operand, which goes over to ARM. -/
def execBlxWide (w : Word) (s : State) : State :=
  { linked s with thumb := false }.branchWritePc (align s.readPc + branchOffset w)

def loadWidePattern : Pattern := "111110001101--------------------"
def adrDownPattern : Pattern := "11110-10101011110---------------"
def adrUpPattern : Pattern := "11110-10000011110---------------"
def condBranchWidePattern : Pattern := "11110-----------10-0------------"
def branchWidePattern : Pattern := "11110-----------10-1------------"
def blPattern : Pattern := "11110-----------11-1------------"
def blxPattern : Pattern := "11110-----------11-0-----------0"

/-- The instructions by their encodings; a load from near the pc has an encoding of its own. -/
def wideInstructions : List (Pattern × (Word → State → Option State)) :=
  [(loadLiteralWidePattern, execLoadLiteralWide),
   (loadWidePattern, execLoadWide),
   (adrDownPattern, execAdrWide false),
   (adrUpPattern, execAdrWide true),
   (condBranchWidePattern, execCondBranchWide),
   (branchWidePattern, fun w s => some (execBranchWide w s)),
   (blPattern, fun w s => some (execBl w s)),
   (blxPattern, fun w s => some (execBlxWide w s))]

/-- The effect of a Thumb instruction of two halfwords, the first of which is the high one. -/
def execWide (w : Word) (s : State) : Option State :=
  (decodeWith wideInstructions w).bind fun effect => effect w s

/-- The effect of the instruction that stands at the pc. -/
def step (s : State) : Option State :=
  if s.thumb && isWide (s.loadHalf s.pc)
    then execWide (s.loadHalf s.pc ++ s.loadHalf (s.pc + 2#32)) s else A32.step s

/-- Run code up to the instruction that leaves it by loading the pc. -/
def runOol : Nat → State → Option State := runUntil step loadsPc

/-! ## The instructions of `A32` -/

/-- An instruction whose pattern rules out all others. -/
theorem execWide_class {w : Word} {p : Pattern} {effect : Word → State → Option State}
    (has : wordMatches w p = true)
    (only : (wideInstructions.filter fun entry => !conflict 32 p entry.1) = [(p, effect)])
    (s : State) : execWide w s = effect w s := by
  rw [execWide, decodeWith_filter has, only]
  simp [decodeWith, has]

end Adbi.T32
