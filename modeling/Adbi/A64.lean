import Adbi.Lib.Words

/-! The part of the A64 instruction set that the templates of `arch/arm64`
replace or are made of: what an instruction word does to the registers, the
flags, the memory and the pc. An encoding that is not among them, or that the
architecture does not allocate, has no effect here. -/
namespace Adbi.A64
open Adbi.Lib

abbrev Word := BitVec 32
abbrev Address := BitVec 64

structure Flags where
  n : Bool
  z : Bool
  c : Bool
  v : Bool
  deriving DecidableEq

/-- The registers `x0` to `x30`, by number; number 31 is not a register of its
own. `simd` are the registers `v0` to `v31`. -/
structure State where
  x : BitVec 5 → BitVec 64
  sp : BitVec 64
  pc : Address
  flags : Flags
  simd : BitVec 5 → BitVec 128
  memory : Address → BitVec 8

namespace State

def readX (s : State) (r : BitVec 5) : BitVec 64 := if r = 31#5 then 0 else s.x r

def writeX (s : State) (r : BitVec 5) (value : BitVec 64) : State :=
  if r = 31#5 then s else { s with x := fun q => if q = r then value else s.x q }

/-- Where number 31 stands for the stack pointer. -/
def readXsp (s : State) (r : BitVec 5) : BitVec 64 := if r = 31#5 then s.sp else s.x r

def writeSimd (s : State) (r : BitVec 5) (value : BitVec 128) : State :=
  { s with simd := fun q => if q = r then value else s.simd q }

def goto (s : State) (pc : Address) : State := { s with pc := pc }

/-- On to the next word. -/
def next (s : State) : State := s.goto (s.pc + 4)

/-- Bytes of memory, the least significant one first. -/
def load (s : State) (a : Address) : (bytes : Nat) → BitVec (8 * bytes)
  | 0 => 0#0
  | bytes + 1 => s.load (a + 1) bytes ++ s.memory a

end State

/-- Whether a condition holds. -/
def condHolds (cond : BitVec 4) (flags : Flags) : Bool :=
  let base := match (field cond 1 3).toNat with
    | 0 => flags.z
    | 1 => flags.c
    | 2 => flags.n
    | 3 => flags.v
    | 4 => flags.c && !flags.z
    | 5 => flags.n == flags.v
    | 6 => flags.n == flags.v && !flags.z
    | _ => true
  if cond.getLsbD 0 && cond != 15#4 then !base else base

/-- The result of `adrp` at `pc`, and of `adr` there. -/
def adrResult (pc : Address) (w : Word) : BitVec 64 :=
  let imm := (field w 5 19 ++ field w 29 2).signExtend 64
  if w.getLsbD 31 then (pc &&& ~~~0xfff#64) + (imm <<< 12) else pc + imm

/-- `adr` and `adrp`. -/
def execAdr (w : Word) (s : State) : State := (s.writeX (field w 0 5) (adrResult s.pc w)).next

/-- The target of a branch whose offset counts words. -/
def branchTarget (pc : Address) (offset : BitVec k) : Address := pc + (offset ++ 0#2).signExtend 64

/-- `b` and `bl`. -/
def execBranch (w : Word) (s : State) : State :=
  let linked := if w.getLsbD 31 then s.writeX 30#5 (s.pc + 4) else s
  linked.goto (branchTarget s.pc (field w 0 26))

/-- `cbz` and `cbnz`. -/
def execCompareBranch (w : Word) (s : State) : State :=
  let value := s.readX (field w 0 5)
  let zero := if w.getLsbD 31 then value == 0 else field value 0 32 == 0
  if zero != w.getLsbD 24 then s.goto (branchTarget s.pc (field w 5 19)) else s.next

/-- `tbz` and `tbnz`. -/
def execTestBranch (w : Word) (s : State) : State :=
  let number := field w 31 1 ++ field w 19 5
  if (s.readX (field w 0 5)).getLsbD number.toNat == w.getLsbD 24 then
    s.goto (branchTarget s.pc (field w 5 14))
  else s.next

/-- `b.cond`. -/
def execCondBranch (w : Word) (s : State) : State :=
  if condHolds (field w 0 4) s.flags then s.goto (branchTarget s.pc (field w 5 19)) else s.next

/-- Loads from an address near the pc: `ldr`, `ldrsw` and `prfm`, also into the SIMD registers. -/
def execLoadLiteral (w : Word) (s : State) : Option State :=
  let address := branchTarget s.pc (field w 5 19)
  let rt := field w 0 5
  match w.getLsbD 26, (field w 30 2).toNat with
  | false, 0 => some (s.writeX rt ((s.load address 4).setWidth 64)).next
  | false, 1 => some (s.writeX rt (s.load address 8)).next
  | false, 2 => some (s.writeX rt ((s.load address 4).signExtend 64)).next
  | false, _ => some s.next
  | true, 0 => some (s.writeSimd rt ((s.load address 4).setWidth 128)).next
  | true, 1 => some (s.writeSimd rt ((s.load address 8).setWidth 128)).next
  | true, 2 => some (s.writeSimd rt (s.load address 16)).next
  | true, _ => none

/-- `ldr` of a general register with an unsigned offset. -/
def execLoad (w : Word) (s : State) : State :=
  let base := s.readXsp (field w 5 5)
  if w.getLsbD 30 then
    (s.writeX (field w 0 5) (s.load (base + (field w 10 12 ++ 0#3).setWidth 64) 8)).next
  else (s.writeX (field w 0 5) ((s.load (base + (field w 10 12 ++ 0#2).setWidth 64) 4).setWidth 64)).next

/-- `ldrsw` with an unsigned offset. -/
def execLoadSigned (w : Word) (s : State) : State :=
  let base := s.readXsp (field w 5 5)
  (s.writeX (field w 0 5) ((s.load (base + (field w 10 12 ++ 0#2).setWidth 64) 4).signExtend 64)).next

/-- `orr` of two registers, without a shift. -/
def execOr (w : Word) (s : State) : State :=
  (s.writeX (field w 0 5) (s.readX (field w 5 5) ||| s.readX (field w 16 5))).next

def adrPattern : Pattern := "---10000------------------------"
def branchPattern : Pattern := "-00101--------------------------"
def compareBranchPattern : Pattern := "-011010-------------------------"
def testBranchPattern : Pattern := "-011011-------------------------"
def condBranchPattern : Pattern := "01010100-------------------0----"
def brPattern : Pattern := "1101011000011111000000-----00000"
def blrPattern : Pattern := "1101011000111111000000-----00000"
def retPattern : Pattern := "1101011001011111000000-----00000"
def loadLiteralPattern : Pattern := "--011-00------------------------"
def loadPattern : Pattern := "1-11100101----------------------"
def loadSignedPattern : Pattern := "1011100110----------------------"
def orPattern : Pattern := "10101010000-----000000----------"

/-- A branch to an address in a register. -/
def indirect (w : Word) : Bool :=
  wordMatches w brPattern || wordMatches w blrPattern || wordMatches w retPattern

/-- The instructions, by their encodings. -/
def instructions : List (Pattern × (Word → State → Option State)) :=
  [(adrPattern, fun w s => some (execAdr w s)),
   (branchPattern, fun w s => some (execBranch w s)),
   (compareBranchPattern, fun w s => some (execCompareBranch w s)),
   (testBranchPattern, fun w s => some (execTestBranch w s)),
   (condBranchPattern, fun w s => some (execCondBranch w s)),
   (brPattern, fun w s => some (s.goto (s.readX (field w 5 5)))),
   (blrPattern, fun w s => some ((s.writeX 30#5 (s.pc + 4)).goto (s.readX (field w 5 5)))),
   (retPattern, fun w s => some (s.goto (s.readX (field w 5 5)))),
   (loadLiteralPattern, execLoadLiteral),
   (loadPattern, fun w s => some (execLoad w s)),
   (loadSignedPattern, fun w s => some (execLoadSigned w s)),
   (orPattern, fun w s => some (execOr w s))]

/-- The effect of a word that stands at the pc. -/
def exec (w : Word) (s : State) : Option State :=
  (decodeWith instructions w).bind fun effect => effect w s

end Adbi.A64
