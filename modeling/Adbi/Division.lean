import Adbi.Lib.Bytes
import Mathlib.Tactic.Common

/-! Division for injectables: the header `division.h`, and the decimal output that
is built on it. -/
namespace Adbi.Division
open Adbi.Lib

/-! ## Shifts -/

/-- The two kinds of processor that run injectables. -/
inductive Target where
  | arm
  | aarch64
  deriving DecidableEq

/-- How far a shift by a register goes. ARM looks at the lowest byte of the register,
AArch64 at the five lowest bits. -/
def Target.amount : Target → BitVec 32 → Nat
  | .arm, shift => shift.toNat % 256
  | .aarch64, shift => shift.toNat % 32

def Target.lsl (t : Target) (val shift : BitVec 32) : BitVec 32 := val <<< t.amount shift

def Target.lsr (t : Target) (val shift : BitVec 32) : BitVec 32 := val >>> t.amount shift

/-- `llsr`: the two words of the union, the lower one first. -/
def llsr (t : Target) (val : BitVec 64) (shift : BitVec 32) : BitVec 64 :=
  let w0 := val.setWidth 32
  let w1 := val.extractLsb' 32 32
  t.lsr w1 shift ++ (t.lsr w0 shift ||| t.lsl w1 (32#32 - shift))

/-! ## Division by binary search -/

section Search
variable {w : Nat} {dividend divisor a b : BitVec w}

theorem toNat_middle (a b : BitVec w) : (b >>> 1 + a >>> 1).toNat = b.toNat / 2 + a.toNat / 2 := by
  rw [BitVec.toNat_add, BitVec.toNat_ushiftRight, BitVec.toNat_ushiftRight, Nat.shiftRight_one,
    Nat.shiftRight_one]
  have := a.isLt
  have := b.isLt
  exact Nat.mod_eq_of_lt (by omega)

theorem toNat_next (before : a < b) :
    (b >>> 1 + a >>> 1 + 1#w).toNat = b.toNat / 2 + a.toNat / 2 + 1 := by
  have above := b.isLt
  rw [BitVec.lt_def] at before
  have one : 1 < 2 ^ w ∨ 2 ^ w = 1 := by omega
  rw [BitVec.toNat_add, toNat_middle, BitVec.toNat_ofNat]
  rcases one with one | one
  · rw [Nat.mod_eq_of_lt one]
    exact Nat.mod_eq_of_lt (by omega)
  · omega

/-- A product that is larger than the dividend is not that of zero. -/
theorem toNat_previous (large : dividend < (b >>> 1 + a >>> 1) * divisor) :
    (b >>> 1 + a >>> 1 - 1#w).toNat = b.toNat / 2 + a.toNat / 2 - 1 ∧ 0 < b.toNat / 2 + a.toNat / 2 := by
  have positive : 0 < b.toNat / 2 + a.toNat / 2 := by
    rw [← toNat_middle, Nat.pos_iff_ne_zero]
    intro zero
    rw [BitVec.lt_def, BitVec.toNat_mul, zero, Nat.zero_mul, Nat.zero_mod] at large
    exact Nat.not_lt_zero _ large
  have bound := (b >>> 1 + a >>> 1).isLt
  rw [toNat_middle] at bound
  have one : 1 < 2 ^ w := by omega
  rw [BitVec.toNat_sub_of_le, toNat_middle, BitVec.toNat_ofNat, Nat.mod_eq_of_lt one]
  · exact ⟨rfl, positive⟩
  · rw [BitVec.le_def, toNat_middle, BitVec.toNat_ofNat, Nat.mod_eq_of_lt one]
    exact positive

end Search

/-- The binary search between `a` and `b`, the second half of both functions. -/
def search {w : Nat} (dividend divisor a b : BitVec w) : BitVec w :=
  let quoutient := b >>> 1 + a >>> 1
  if a < b then
    if dividend < quoutient * divisor then search dividend divisor a (quoutient - 1#w)
    else if dividend - quoutient * divisor < divisor then quoutient
    else search dividend divisor (quoutient + 1#w) b
  else a
termination_by b.toNat - a.toNat
decreasing_by
  · have before := BitVec.lt_def.mp ‹a < b›
    have previous := (toNat_previous ‹dividend < _›).1
    omega
  · have before := BitVec.lt_def.mp ‹a < b›
    have next := toNat_next ‹a < b›
    omega

/-- The loop that both functions begin with; `d` is the power of two for each shift. -/
def findShift {w : Nat} (limit : Nat) (d : Nat → BitVec w) (divisor : BitVec w) : Nat :=
  ((List.range limit).find? fun shift => divisor < d shift).getD limit

def div (t : Target) (dividend divisor : BitVec 32) : BitVec 32 :=
  let shift := findShift 32 (fun shift => t.lsl 1#32 (BitVec.ofNat 32 shift)) divisor
  let a := if shift < 32 then t.lsr dividend (BitVec.ofNat 32 shift) else 0xffffffff#32
  let b := t.lsr dividend (BitVec.ofNat 32 shift - 1#32)
  search dividend divisor a b

/-- `divl`. The powers of two are those of the type `int`. -/
def divl (t : Target) (dividend divisor : BitVec 64) : BitVec 64 :=
  let shift := findShift 64 (fun shift => (t.lsl 1#32 (BitVec.ofNat 32 shift)).signExtend 64) divisor
  let a := if shift < 64 then llsr t dividend (BitVec.ofNat 32 shift) else 0xffffffffffffffff#64
  let b := llsr t dividend (BitVec.ofNat 32 shift - 1#32)
  search dividend divisor a b

/-! ## Division by ten -/

/-- `div10`: on ARM the upper word of `umull`, shifted on, on AArch64 a long product. -/
def div10 : Target → BitVec 32 → BitVec 32
  | .arm, v => (v.setWidth 64 * 0xcccccccd#64).extractLsb' 32 32 >>> 3
  | .aarch64, v => ((v.setWidth 64 * 0xcccccccd#64) >>> 35).setWidth 32

def restAdd : List (BitVec 64) :=
  [0x00000000#64, 0x1999999a#64, 0x33333334#64, 0x4ccccccd#64, 0x66666667#64,
    0x80000001#64, 0x9999999a#64, 0xb3333334#64, 0xcccccccd#64, 0xe6666667#64]

/-- `div10l`. The index is a rest of ten (`rest_lt`), so that it is one of the table. -/
def div10l (t : Target) (v : BitVec 64) : BitVec 64 :=
  let a := (div10 t ((v >>> 32).setWidth 32)).setWidth 64
  let b := (div10 t ((v &&& 0xffffffff#64).setWidth 32)).setWidth 64
  let ri := (v >>> 32 - a * 10#64).setWidth 32
  let ret := a <<< 32 + b + restAdd.getD ri.toNat 0#64
  if v < ret * 10#64 then ret - 1#64 else ret

/-! ## Decimal output -/

/-- The loop over the digits. There are `room` bytes of the buffer in front of the
pointer, and `text` is what stands behind it; a store in front of the buffer has no result. -/
def digits (t : Target) : Nat → BitVec 64 → Bytes → Option Bytes
  | 0, val, text => if val = 0#64 then some text else none
  | room + 1, val, text =>
    if val = 0#64 then some text
    else
      let next := div10l t val
      let rest := val - next * 10#64
      digits t room next ((48#64 + rest).setWidth 8 :: text)

/-- The size of the buffers. -/
def bufferSize : Nat := 25

/-- `adbi_write_dec_unlocked`: the bytes that it gives to `adbi_write_unlocked`. -/
def writeDec (t : Target) (val : BitVec 64) : Option Bytes :=
  if val = 0#64 then some [48#8] else digits t bufferSize val []

/-- `adbi_write_signed_dec_unlocked`. -/
def writeSignedDec (t : Target) (val : BitVec 64) : Option Bytes :=
  let minus := val.msb
  let val := if minus then -val else val
  if val = 0#64 then some [48#8]
  else
    match digits t bufferSize val [] with
    | none => none
    | some text =>
      if !minus then some text
      else if text.length < bufferSize then some (0x2d#8 :: text)
      else none

end Adbi.Division
