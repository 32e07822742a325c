import Adbi.Lib.Memory

/-! Writing to the memory of the inferior, after `procutil/mem.c` and
`procutil/ptrace.c`. The kernel reads and writes an `unsigned long` of the
server at a time, four bytes on a 32-bit server and eight on a 64-bit one; the
functions here count in words of four bytes on both. -/
namespace Adbi.MemWrite
open Adbi.Lib

variable {n : Nat}

/-- `address & ~0x03`. -/
def wordOf (address : BitVec n) : BitVec n := address &&& ~~~3#n

/-- The inferior: its bytes, the addresses of the words of four bytes that are
mapped, and `thread->state.dead`. Of a dead thread nothing is left. -/
structure Inferior (n : Nat) where
  memory : BitVec n → BitVec 8
  mapped : BitVec n → Bool
  dead : Bool
  gone : dead = true → ∀ address, mapped address = false

inductive Fault where
  | assertion
  deriving DecidableEq

/-- Whether all the bytes of an `unsigned long` at the address are mapped. -/
def accessible (inferior : Inferior n) (address : BitVec n) : Bool :=
  (List.range (n / 32)).all fun j => inferior.mapped (address + BitVec.ofNat n (4 * j))

/-- `ptrace_mem_read`, at the address of a word. -/
def ptraceMemRead (inferior : Inferior n) (address : BitVec n) : Option (BitVec n) :=
  if accessible inferior address then some (loadLE n inferior.memory address) else none

/-- `ptrace_mem_write`, at the address of a word. -/
def ptraceMemWrite (inferior : Inferior n) (address data : BitVec n) : Option (Inferior n) :=
  if accessible inferior address
    then some { inferior with memory := storeLE inferior.memory address data } else none

/-- `mem_write_masked_word`. -/
def memWriteMaskedWord (inferior : Inferior n) (address : BitVec n) (value mask : BitVec 32) :
    Option (Inferior n) := do
  let t ← ptraceMemRead inferior address
  ptraceMemWrite inferior address ((t &&& ~~~mask.setWidth n) ||| value.setWidth n)

/-- The number of `union arm_word` with these bytes. -/
def armWord (byte : Nat → BitVec 8) : BitVec 32 := ofLittleEndian 32 ((List.range 4).map byte)

/-- `mem_write_shift_word`; `data + shift` is the source pointer. -/
def memWriteShiftWord (inferior : Inferior n) (address : BitVec n) (data : Nat → BitVec 8) (shift : Int)
    (start stop : Nat) : Nat × Inferior n :=
  let mask := armWord fun offset => if start ≤ offset && offset < stop then 0xff#8 else 0#8
  let value := armWord fun offset => if start ≤ offset &&
    offset < stop then data (shift + offset).toNat else 0#8
  match memWriteMaskedWord inferior address value mask with
  | some inferior => (stop - start, inferior)
  | none => (0, inferior)

/-- The loop of `mem_write_shift`. -/
def memWriteShift (inferior : Inferior n) (address : BitVec n) (data : Nat → BitVec 8) (shift : Int)
    (start stop : Nat) : Nat × Inferior n :=
  let now := memWriteShiftWord inferior address data shift start (if 4 ≤ stop then 4 else stop)
  if now.1 = 0 || stop ≤ 4 then now
  else
    let later := memWriteShift now.2 (address + 4) data (shift + 4) 0 (stop - 4)
    (now.1 + later.1, later.2)
termination_by stop
decreasing_by
  simp only [Bool.or_eq_true, decide_eq_true_eq, not_or] at *
  omega

/-- `mem_verify`. That it compares 32 bytes at a time makes no difference. -/
def memVerify (inferior : Inferior n) (address : BitVec n) (size : Nat) (data : Nat → BitVec 8) : Bool :=
  (List.range size).all fun i =>
    inferior.mapped (wordOf (address + BitVec.ofNat n i)) &&
      inferior.memory (address + BitVec.ofNat n i) == data i

/-- `mem_write`. The offsets become an `unsigned int` where they are passed on.
The assertions about the alignment of addresses and about masks hold of what is
passed here. -/
def memWrite (inferior : Inferior n) (address size : BitVec n) (data : Nat → BitVec 8) :
    Except Fault (Nat × Inferior n) :=
  if inferior.dead then .ok (0, inferior)
  else if size = 0 then .ok (0, inferior)
  else
    let first := wordOf address
    let start := ((address - first).setWidth 32).toNat
    let stop := ((address + size - first).setWidth 32).toNat
    if start < stop then
      let done := memWriteShift inferior first data (-start) start stop
      if memVerify done.2 address done.1 data then .ok done else .error .assertion
    else .error .assertion

end Adbi.MemWrite
