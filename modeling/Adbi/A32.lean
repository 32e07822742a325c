import Adbi.A64
import Adbi.Lib.Memory

/-! The part of the ARM and Thumb instruction sets that the templates of `arch/arm`
for branches and literals replace or are made of, outside of an IT block. What the
architecture leaves UNPREDICTABLE has no effect here, and neither has an encoding
that is not among these. -/
namespace Adbi.A32
open Adbi.Lib
open Adbi.A64 (Flags condHolds)

abbrev Word := BitVec 32

/-- The registers `r0` to `r14`, by number; number 15 is the pc. -/
structure State where
  r : BitVec 4 → Word
  pc : Word
  thumb : Bool
  flags : Flags
  memory : Word → BitVec 8

def sp : BitVec 4 := 13#4
def lr : BitVec 4 := 14#4

/-- `Align(value, 4)`. -/
def align (value : Word) : Word := value &&& ~~~3#32

namespace State

/-- What an instruction reads from the pc. -/
def readPc (s : State) : Word := s.pc + if s.thumb then 4#32 else 8#32

def readR (s : State) (n : BitVec 4) : Word := if n = 15#4 then s.readPc else s.r n

def writeR (s : State) (n : BitVec 4) (value : Word) : State :=
  { s with r := fun q => if q = n then value else s.r q }

def goto (s : State) (pc : Word) : State := { s with pc := pc }

def load (s : State) (a : Word) : Word := loadLE 32 s.memory a

def loadHalf (s : State) (a : Word) : BitVec 16 := loadLE 16 s.memory a

def store (s : State) (a value : Word) : State := { s with memory := storeLE s.memory a value }

/-- `BranchWritePC`. -/
def branchWritePc (s : State) (address : Word) : State :=
  s.goto (if s.thumb then address &&& ~~~1#32 else align address)

/-- `BXWritePC`, which is also what loading the pc does. -/
def bxWritePc (s : State) (address : Word) : Option State :=
  if address.getLsbD 0 then some { s with thumb := true, pc := address &&& ~~~1#32 }
  else if address.getLsbD 1 then none
  else some { s with thumb := false, pc := address }

end State

/-! ## ARM -/

/-- On to the next word. -/
def nextArm (s : State) : State := s.goto (s.pc + 4#32)

/-- `b` and `bl` with an immediate operand. -/
def execBranch (w : Word) (s : State) : State :=
  let linked := if w.getLsbD 24 then s.writeR lr (s.readPc - 4#32) else s
  linked.branchWritePc (s.readPc + (field w 0 24 ++ 0#2).signExtend 32)

/-- `blx` with an immediate operand. -/
def execBlxImm (w : Word) (s : State) : State :=
  let target := align s.readPc + (field w 0 24 ++ field w 24 1 ++ 0#1).signExtend 32
  { s.writeR lr (s.readPc - 4#32) with thumb := true }.branchWritePc target

/-- `blx` with a register. -/
def execBlxReg (w : Word) (s : State) : Option State :=
  let m := field w 0 4
  if m = 15#4 then none else (s.writeR lr (s.readPc - 4#32)).bxWritePc (s.readR m)

/-- `ldr` and `str` of a word, with an immediate offset. -/
def execLoadStore (w : Word) (s : State) : Option State :=
  let n := field w 16 4
  let t := field w 12 4
  let index := w.getLsbD 24
  let wback := !index || w.getLsbD 21
  if !index && w.getLsbD 21 then none
  else if wback && (n == 15#4 || n == t) then none
  else
    let base := if n = 15#4 then align s.readPc else s.readR n
    let imm := (field w 0 12).setWidth 32
    let offset := if w.getLsbD 23 then base + imm else base - imm
    let address := if index then offset else base
    let written := if wback then s.writeR n offset else s
    if w.getLsbD 20 then
      if t = 15#4 then if address &&& 3#32 = 0#32 then written.bxWritePc (s.load address) else none
      else some (nextArm (written.writeR t (s.load address)))
    else if t = 15#4 then none
    else some (nextArm (written.store address (s.readR t)))

def blxImmPattern : Pattern := "1111101-------------------------"
def branchPattern : Pattern := "----101-------------------------"
def blxRegPattern : Pattern := "----000100101111111111110011----"
def loadStorePattern : Pattern := "----010--0----------------------"

/-- The conditional instructions, by their encodings. -/
def armInstructions : List (Pattern × (Word → State → Option State)) :=
  [(branchPattern, fun w s => some (execBranch w s)), (blxRegPattern, execBlxReg),
    (loadStorePattern, execLoadStore)]

/-- The effect of an ARM instruction at the pc. -/
def execArm (w : Word) (s : State) : Option State :=
  if wordMatches w blxImmPattern then some (execBlxImm w s)
  else if field w 28 4 = 15#4 then none
  else
    (decodeWith armInstructions w).bind fun effect =>
      if condHolds (field w 28 4) s.flags then effect w s else some (nextArm s)

/-! ## Thumb -/

def nextThumb (s : State) : State := s.goto (s.pc + 2#32)

/-- A low register, by the three bits of its number. -/
def low (w : BitVec 16) (at_ : Nat) : BitVec 4 := (field w at_ 3).setWidth 4

/-- `adr`. -/
def execAdr (w : BitVec 16) (s : State) : State :=
  nextThumb (s.writeR (low w 8) (align s.readPc + (field w 0 8 ++ 0#2).setWidth 32))

/-- `ldr` from an address near the pc. -/
def execLoadLiteral (w : BitVec 16) (s : State) : State :=
  nextThumb (s.writeR (low w 8) (s.load (align s.readPc + (field w 0 8 ++ 0#2).setWidth 32)))

/-- `ldr` with an immediate offset. -/
def execLoad (w : BitVec 16) (s : State) : State :=
  nextThumb (s.writeR (low w 0) (s.load (s.readR (low w 3) + (field w 6 5 ++ 0#2).setWidth 32)))

/-- A conditional branch; two of the conditions stand for other instructions. -/
def execCondBranch (w : BitVec 16) (s : State) : Option State :=
  if field w 9 3 = 7#3 then none
  else if condHolds (field w 8 4) s.flags
    then some (s.branchWritePc (s.readPc + (field w 0 8 ++ 0#1).signExtend 32))
  else some (nextThumb s)

/-- `b`. -/
def execBranchT2 (w : BitVec 16) (s : State) : State :=
  s.branchWritePc (s.readPc + (field w 0 11 ++ 0#1).signExtend 32)

/-- `cbz` and `cbnz`. -/
def execCompareBranch (w : BitVec 16) (s : State) : State :=
  if (s.readR (low w 0) == 0#32) != w.getLsbD 11 then
    s.branchWritePc (s.readPc + (field w 9 1 ++ field w 3 5 ++ 0#1).setWidth 32)
  else nextThumb s

def adrPattern : Pattern := "10100-----------"
def loadLiteralPattern : Pattern := "01001-----------"
def loadPattern : Pattern := "01101-----------"
def condBranchPattern : Pattern := "1101------------"
def branchT2Pattern : Pattern := "11100-----------"
def compareBranchPattern : Pattern := "1011-0-1--------"

def thumbInstructions : List (Pattern × (BitVec 16 → State → Option State)) :=
  [(adrPattern, fun w s => some (execAdr w s)),
   (loadLiteralPattern, fun w s => some (execLoadLiteral w s)),
   (loadPattern, fun w s => some (execLoad w s)),
   (condBranchPattern, execCondBranch),
   (branchT2Pattern, fun w s => some (execBranchT2 w s)),
   (compareBranchPattern, fun w s => some (execCompareBranch w s))]

/-- The effect of a Thumb instruction of one halfword. -/
def execThumb (w : BitVec 16) (s : State) : Option State :=
  (decodeWith thumbInstructions w).bind fun effect => effect w s

/-- `ldr.w` from an address near the pc. -/
def execLoadLiteralWide (w : Word) (s : State) : Option State :=
  let t := field w 12 4
  let imm := (field w 0 12).setWidth 32
  let address := if w.getLsbD 23 then align s.readPc + imm else align s.readPc - imm
  if t = 15#4 then if address &&& 3#32 = 0#32 then s.bxWritePc (s.load address) else none
  else some ((s.writeR t (s.load address)).goto (s.pc + 4#32))

def loadLiteralWidePattern : Pattern := "11111000-1011111----------------"

/-- The effect of a Thumb instruction of two halfwords, the first of which is the high one. -/
def execThumb2 (w : Word) (s : State) : Option State :=
  if wordMatches w loadLiteralWidePattern then execLoadLiteralWide w s else none

/-! ## Running -/

/-- The halfword begins an instruction of two. -/
def isWide (w : BitVec 16) : Bool := 0xe800#16 ≤ w

/-- The effect of the instruction that stands at the pc. -/
def step (s : State) : Option State :=
  if s.thumb then
    let first := s.loadHalf s.pc
    if isWide first then execThumb2 (first ++ s.loadHalf (s.pc + 2#32)) s else execThumb first s
  else execArm (s.load s.pc) s

/-- The instruction at the pc is one that loads the pc. -/
def loadsPc (s : State) : Bool :=
  if s.thumb then
    let first := s.loadHalf s.pc
    isWide first && wordMatches (first ++ s.loadHalf (s.pc + 2#32)) "11111000-10111111111------------"
  else wordMatches (s.load s.pc) "----010--0-1----1111------------" &&
    condHolds (field (s.load s.pc) 28 4) s.flags

/-- Run code up to the instruction that leaves it by loading the pc. -/
def runOol : Nat → State → Option State
  | 0, _ => none
  | steps + 1, s => (step s).bind fun s' => if loadsPc s then some s' else runOol steps s'

end Adbi.A32
