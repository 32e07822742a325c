import Adbi.Lib.Stateful
import Adbi.MemWrite

/-! How `fncall_call` prepares the stack of the function it calls, after
`arch/*/fncall.c`. The elements are an array of the caller, of words of eight
bytes or, for a process in AArch32 state, of four bytes. -/
namespace Adbi.CallStack
open Adbi.Lib Adbi.MemWrite

variable {n : Nat}

/-- The caller's array: `stack_elements`, and the bytes from the pointer on,
those behind the array included. -/
structure Elements where
  stackElements : BitVec 32
  stack : Nat → BitVec 8

/-- `stack[i]`, with elements of `w` bits. -/
def Elements.element (elements : Elements) (w i : Nat) : BitVec w :=
  ofLittleEndian w ((List.range (w / 8)).map fun j => elements.stack (w / 8 * i + j))

/-- How the preparation ends early: a request is refused, or fails an assertion,
or the loop never ends. -/
inductive Stop where
  | refused | assertion | unending
  deriving DecidableEq, Repr

/-- The stack pointer and the inferior, and which bytes of the array have been
read: an offset and a number of bytes. -/
structure Pushing (n : Nat) where
  sp : BitVec n
  inferior : Inferior n
  reads : List (Nat × Nat)

abbrev Push (n : Nat) := EStateM Stop (Pushing n)

def readElement (elements : Elements) (w i : Nat) : Push n (BitVec w) := do
  modify fun p => { p with reads := (w / 8 * i, w / 8) :: p.reads }
  pure (elements.element w i)

/-- `regs.sp += offset`. -/
def moveSp (offset : BitVec n) : Push n Unit := modify fun p => { p with sp := p.sp + offset }

/-- `ptrace_mem_write` at the stack pointer. -/
def store (value : BitVec n) : Push n Unit := do
  let p ← get
  if p.sp.toNat % 4 = 0 then
    match ptraceMemWrite p.inferior p.sp value with
    | some inferior => modify fun p => { p with inferior := inferior }
    | none => throw .refused
  else throw .assertion

/-- An `unsigned long` is pushed: the loop body for a process in the execution
state of the server. -/
def pushElement (elements : Elements) (i : Nat) : Push n Unit := do
  let value ← readElement elements n i
  moveSp (-BitVec.ofNat n (n / 8))
  store value

/-- The loop for a process in the execution state of the server. -/
def pushElements (elements : Elements) : Push n Unit :=
  (List.range elements.stackElements.toNat).forM (pushElement elements)

/-! ## AArch32 state on the arm64 server -/

/-- After as many rounds as there are double words, every one of them has been written. -/
def doubleWords : Nat := 2 ^ 61

/-- The loop for a process in AArch32 state: two elements at a time. `i` is an
`unsigned int`, which is returned. -/
def pushPairs (elements : Elements) : Nat → BitVec 32 → Push 64 (BitVec 32)
  | 0, _ => throw .unending
  | rounds + 1, i => do
    if i < elements.stackElements then do
      let low ← if i + 1 < elements.stackElements then readElement elements 32 (i + 1).toNat else pure 0
      let high ← readElement elements 32 i.toNat
      moveSp (-8)
      store (high ++ low)
      if elements.stackElements ≤ i + 1 then moveSp 4 else pure ()
      pushPairs elements rounds (i + 2)
    else pure i

/-- The stack of a function in a process in AArch32 state. -/
def pushStack32 (elements : Elements) : Push 64 Unit := do
  let i ← pushPairs elements doubleWords 0
  if elements.stackElements < i then do
    let value ← readElement elements 64 i.toNat
    store value
  else pure ()

/-- `mode32` tells the execution states apart. -/
def pushStack64 (mode32 : Bool) (elements : Elements) : Push 64 Unit :=
  if mode32 then pushStack32 elements else pushElements elements

end Adbi.CallStack
