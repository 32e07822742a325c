import Adbi.Lib.Bytes

/-! What a DWARF expression means: the stack machine of the standard, for a target
whose addresses have four bytes or eight. The stack holds values in symbolic form, over
the registers, the frame base and the CFA. -/
namespace Adbi.Dwarf
open Adbi.Lib

/-- The size of an address on the target. -/
inductive AddressSize where
  | four | eight
  deriving DecidableEq

def AddressSize.bytes : AddressSize → Nat
  | .four => 4
  | .eight => 8

def AddressSize.bits : AddressSize → Nat
  | .four => 32
  | .eight => 64

/-- The formats of `struct` for the constants. -/
inductive Format where
  | B | b | H | h | I | i | Q | q
  deriving DecidableEq

/-- The operations by the names in `idk/dwexpr/constants.py`, without those of which
`Machine` has no method. -/
inductive Opcode where
  | addr
  | const (fmt : Format)
  | constu | consts
  | dup | drop | «over» | pick | swap | rot
  | minus | plus
  | lit (n : Nat)
  | reg (n : Nat)
  | breg (n : Nat)
  | regx | fbreg | bregx
  | nop
  | callFrameCfa
  | stackValue
  deriving DecidableEq

/-- `OPCODES`. An operation that `Machine` does not implement is there without a name. -/
def opcodes (byte : BitVec 8) : Option (Option Opcode) :=
  let code := byte.toNat
  if code = 0x03 then some (some .addr)
  else if code = 0x06 then some none
  else if code < 0x08 then none
  else if 0xa0 ≤ code then none
  else if 0x30 ≤ code ∧ code < 0x50 then some (some (.lit (code - 0x30)))
  else if 0x50 ≤ code ∧ code < 0x70 then some (some (.reg (code - 0x50)))
  else if 0x70 ≤ code ∧ code < 0x90 then some (some (.breg (code - 0x70)))
  else some <|
    match code with
    | 0x08 => some (.const .B)
    | 0x09 => some (.const .b)
    | 0x0a => some (.const .H)
    | 0x0b => some (.const .h)
    | 0x0c => some (.const .I)
    | 0x0d => some (.const .i)
    | 0x0e => some (.const .Q)
    | 0x0f => some (.const .q)
    | 0x10 => some .constu
    | 0x11 => some .consts
    | 0x12 => some .dup
    | 0x13 => some .drop
    | 0x14 => some .«over»
    | 0x15 => some .pick
    | 0x16 => some .swap
    | 0x17 => some .rot
    | 0x1c => some .minus
    | 0x22 => some .plus
    | 0x90 => some .regx
    | 0x91 => some .fbreg
    | 0x92 => some .bregx
    | 0x96 => some .nop
    | 0x9c => some .callFrameCfa
    | 0x9f => some .stackValue
    | _ => none

/-! ## Numbers -/

/-- The number of bytes of a constant. -/
def Format.size : Format → Nat
  | .B | .b => 1
  | .H | .h => 2
  | .I | .i => 4
  | .Q | .q => 8

def Format.decode (fmt : Format) (bytes : Bytes) : Int :=
  match fmt with
  | .B => (ofLittleEndian 8 bytes).toNat
  | .b => (ofLittleEndian 8 bytes).toInt
  | .H => (ofLittleEndian 16 bytes).toNat
  | .h => (ofLittleEndian 16 bytes).toInt
  | .I => (ofLittleEndian 32 bytes).toNat
  | .i => (ofLittleEndian 32 bytes).toInt
  | .Q => (ofLittleEndian 64 bytes).toNat
  | .q => (ofLittleEndian 64 bytes).toInt

/-- The unsigned LEB128 number in front, and how many bytes it takes. -/
def uleb128 : Bytes → Option (Nat × Nat)
  | [] => none
  | byte :: rest =>
    if byte.toNat < 128 then some (byte.toNat, 1)
    else (uleb128 rest).map fun (n, size) => (byte.toNat - 128 + 128 * n, size + 1)

/-- The signed LEB128 number in front, and how many bytes it takes. -/
def sleb128 : Bytes → Option (Int × Nat)
  | [] => none
  | byte :: rest =>
    if byte.toNat < 64 then some (byte.toNat, 1)
    else if byte.toNat < 128 then some (byte.toNat - 128, 1)
    else (sleb128 rest).map fun (n, size) => (byte.toNat - 128 + 128 * n, size + 1)

/-! ## Values -/

inductive Value where
  | constant (n : Int)
  | address (a : Nat)
  | register (n : Nat) (offset : Int)
  | frame (offset : Int)
  | cfa
  | plus (second top : Value)
  | minus (second top : Value)
  deriving DecidableEq

structure Env (size : AddressSize) where
  register : Nat → BitVec size.bits
  frame : BitVec size.bits
  cfa : BitVec size.bits

/-- A value is a number of the size of an address. -/
def Value.eval {size : AddressSize} (env : Env size) : Value → BitVec size.bits
  | .constant n => BitVec.ofInt size.bits n
  | .address a => BitVec.ofNat size.bits a
  | .register n offset => env.register n + BitVec.ofInt size.bits offset
  | .frame offset => env.frame + BitVec.ofInt size.bits offset
  | .cfa => env.cfa
  | .plus second top => second.eval env + top.eval env
  | .minus second top => second.eval env - top.eval env

/-! ## Evaluation -/

/-- How an expression can be malformed. -/
inductive Malformed where
  | truncated | underflow | badIndex | unknown
  deriving DecidableEq

/-- What an operation leads to: the next stack, with the length of the operands, or the end. -/
inductive Effect where
  | next (stack : List Value) (length : Nat)
  | inRegister (n : Nat)
  | isValue (v : Value)
  deriving DecidableEq

/-- Some value, unless the operands are cut off. -/
def operand {α : Type} : Option α → Except Malformed α
  | some a => .ok a
  | none => .error .truncated

/-- One operation on the stack, its top first, and the bytes behind it. -/
def step (size : AddressSize) (opcode : Opcode) (bytes : Bytes) (stack : List Value) :
    Except Malformed Effect :=
  match opcode, stack with
  | .addr, stack =>
    if size.bytes ≤ bytes.length then
      .ok (.next (.address (ofLittleEndian size.bits (bytes.take size.bytes)).toNat :: stack) size.bytes)
    else .error .truncated
  | .const fmt, stack =>
    if fmt.size ≤ bytes.length then
      .ok (.next (.constant (fmt.decode (bytes.take fmt.size)) :: stack) fmt.size)
    else .error .truncated
  | .constu, stack => do
    let (n, length) ← operand (uleb128 bytes)
    return .next (.constant n :: stack) length
  | .consts, stack => do
    let (n, length) ← operand (sleb128 bytes)
    return .next (.constant n :: stack) length
  | .dup, a :: stack => .ok (.next (a :: a :: stack) 0)
  | .drop, _ :: stack => .ok (.next stack 0)
  | .«over», a :: b :: stack => .ok (.next (b :: a :: b :: stack) 0)
  | .pick, stack =>
    match bytes with
    | [] => .error .truncated
    | index :: _ =>
      match stack[index.toNat]? with
      | some v => .ok (.next (v :: stack) 1)
      | none => .error .badIndex
  | .swap, a :: b :: stack => .ok (.next (b :: a :: stack) 0)
  | .rot, a :: b :: c :: stack => .ok (.next (b :: c :: a :: stack) 0)
  | .minus, a :: b :: stack => .ok (.next (.minus b a :: stack) 0)
  | .plus, a :: b :: stack => .ok (.next (.plus b a :: stack) 0)
  | .lit n, stack => .ok (.next (.constant n :: stack) 0)
  | .reg n, _ => .ok (.inRegister n)
  | .breg n, stack => do
    let (offset, length) ← operand (sleb128 bytes)
    return .next (.register n offset :: stack) length
  | .regx, _ => do
    let (n, _) ← operand (uleb128 bytes)
    return .inRegister n
  | .fbreg, stack => do
    let (offset, length) ← operand (sleb128 bytes)
    return .next (.frame offset :: stack) length
  | .bregx, stack => do
    let (n, length) ← operand (uleb128 bytes)
    let (offset, length') ← operand (sleb128 (bytes.drop length))
    return .next (.register n offset :: stack) (length + length')
  | .nop, stack => .ok (.next stack 0)
  | .callFrameCfa, stack => .ok (.next (.cfa :: stack) 0)
  | .stackValue, a :: _ => .ok (.isValue a)
  | _, _ => .error .underflow

/-- What an expression describes: an object at an address, in a register, or its value. -/
inductive Outcome where
  | malformed (reason : Malformed)
  | unimplemented
  | location (v : Value)
  | inRegister (n : Nat)
  | isValue (v : Value)
  deriving DecidableEq

/-- The outcome with another value, where it has one. -/
def Outcome.map (f : Value → Value) : Outcome → Outcome
  | .location v => .location (f v)
  | .isValue v => .isValue (f v)
  | outcome => outcome

/-- What an outcome comes to: whether it is the address of the object, and the value. -/
def Outcome.meaning {size : AddressSize} (env : Env size) : Outcome → Option (Bool × BitVec size.bits)
  | .location v => some (true, v.eval env)
  | .inRegister n => some (false, env.register n)
  | .isValue v => some (false, v.eval env)
  | .malformed _ | .unimplemented => none

/-- The outcome, and the operations on the way there. -/
structure Evaluation where
  outcome : Outcome
  executed : List Opcode
  deriving DecidableEq

/-- One more operation in front. -/
def Evaluation.after (opcode : Opcode) (evaluation : Evaluation) : Evaluation :=
  { evaluation with executed := opcode :: evaluation.executed }

/-- The expression from a stack on. -/
def evaluate (size : AddressSize) : Bytes → List Value → Evaluation
  | [], [] => ⟨.malformed .underflow, []⟩
  | [], v :: _ => ⟨.location v, []⟩
  | byte :: rest, stack =>
    match opcodes byte with
    | none => ⟨.malformed .unknown, []⟩
    | some none => ⟨.unimplemented, []⟩
    | some (some opcode) =>
      match step size opcode rest stack with
      | .error reason => ⟨.malformed reason, [opcode]⟩
      | .ok (.inRegister n) => ⟨.inRegister n, [opcode]⟩
      | .ok (.isValue v) => ⟨.isValue v, [opcode]⟩
      | .ok (.next stack length) => (evaluate size (rest.drop length) stack).after opcode
termination_by bytes => bytes.length
decreasing_by simp only [List.length_drop, List.length_cons]; omega

end Adbi.Dwarf
