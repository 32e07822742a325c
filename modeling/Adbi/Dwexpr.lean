import Adbi.Dwarf
import Adbi.Lib.CExpr
import Adbi.Lib.Stateful
import Mathlib.Data.Int.Bitwise

/-! `idk/dwexpr/machine.py`, which compiles a DWARF expression to a C expression. A
text is the list of its tokens. -/
namespace Adbi.Dwexpr
open Adbi.Lib
open Adbi.Dwarf (Format Opcode opcodes)

/-- The identifiers in the texts. -/
inductive Name where
  | adbiFrame | adbiCfa | getReg
  deriving DecidableEq

abbrev Text := List (C.Token Name)

/-- The exceptions. `structError` is what `struct.unpack` raises. -/
inductive Error where
  | valueError | indexError | structError | notImplementedError
  deriving DecidableEq

/-- `Machine`. The stack is given from its top on. -/
structure Machine where
  stack : List Text
  expression : Bytes
  usesFrame : Bool
  usesCfa : Bool

structure Result where
  expression : Text
  isAddress : Bool
  usesFrame : Bool
  usesCfa : Bool
  deriving DecidableEq

abbrev Method := EStateM Error Machine

/-! ## `common/leb128.py` -/

/-- The loop of `BaseLEB.decode`: the number, the last shift and the last byte. -/
def lebLoop (result shift : Nat) : Bytes → Except Error (Nat × Nat × BitVec 8 × Bytes)
  | [] => .error .valueError
  | b :: rest =>
    let result := result ||| ((b &&& 0x7f#8).toNat <<< shift)
    let shift := shift + 7
    if b &&& 0x80#8 = 0#8 then .ok (result, shift, b, rest) else lebLoop result shift rest

def readLeb : Method (Nat × Nat × BitVec 8) := fun machine =>
  match lebLoop 0 0 machine.expression with
  | .ok (result, shift, b, rest) => .ok (result, shift, b) { machine with expression := rest }
  | .error e => .error e machine

/-- `LEB.decode`. -/
def decodeLeb : Method Nat := do
  let (result, _, _) ← readLeb
  return result

/-- `SLEB.decode`. -/
def decodeSleb : Method Int := do
  let (result, shift, b) ← readLeb
  if b &&& 0x40#8 ≠ 0#8 then return Int.lor result (-((1 : Int) <<< shift)) else return result

/-! ## Texts -/

/-- `%#x`. -/
def hexText (n : Int) : Text := if n < 0 then [.minus, .hex n.natAbs] else [.hex n.natAbs]

/-- `get_reg(%i)`. -/
def getRegText (n : Nat) : Text := [.ident .getReg, .lparen, .dec n, .rparen]

/-- The three formats of `fbreg` and `bregN`. -/
def offsetText (base : Text) (offset : Int) : Text :=
  if offset > 0 then base ++ .plus :: hexText offset
  else if offset < 0 then base ++ .minus :: hexText offset.natAbs
  else base

/-- `((char *) (%s))`. -/
def charText (text : Text) : Text :=
  .lparen :: ([.lparen, .char, .star, .rparen] ++ (.lparen :: text ++ [.rparen])) ++ [.rparen]

def voidCast : Text := [.lparen, .void, .star, .rparen]

def charCast : Text := [.lparen, .char, .star, .rparen]

/-! ## Methods -/

def read (count : Nat) : Method Bytes := fun machine =>
  if machine.expression.length < count then .error .valueError machine
  else .ok (machine.expression.take count) { machine with expression := machine.expression.drop count }

def push (value : Text) : Method Unit :=
  modify fun machine => { machine with stack := value :: machine.stack }

def pop : Method Text := fun machine =>
  match machine.stack with
  | [] => .error .valueError machine
  | value :: stack => .ok value { machine with stack := stack }

def dup : Method Unit := do
  let value ← pop
  push value
  push value

def drop : Method Unit := do
  let _ ← pop

/-- A list raises `IndexError`, which is not the error that is caught. -/
def pick : Method Unit := do
  let operand ← read 1
  let idx := (ofLittleEndian 8 operand).toNat + 1
  let machine ← get
  match machine.stack[idx - 1]? with
  | some val => push val
  | none => throw .indexError

def «over» : Method Unit := do
  let top ← pop
  let second ← pop
  push second
  push top
  push second

def swap : Method Unit := do
  let a ← pop
  let b ← pop
  push a
  push b

def rot : Method Unit := do
  let a ← pop
  let b ← pop
  let c ← pop
  push a
  push c
  push b

def callFrameCfa : Method Unit := do
  push [.ident .adbiCfa]
  modify fun machine => { machine with usesCfa := true }

def addr : Method Unit := do
  let address ← read 4
  push (voidCast ++ hexText (ofLittleEndian 32 address).toNat)

/-- The size is unpacked, and not any bytes of the expression. -/
def constXX (_ : Format) : Method Unit := throw .structError

def constu : Method Unit := do
  let val ← decodeLeb
  push (hexText val)

def consts : Method Unit := do
  let val ← decodeSleb
  push (hexText val)

def litX (value : Nat) : Method Unit := push (hexText value)

def fbreg : Method Unit := do
  let offset ← decodeSleb
  push (offsetText [.ident .adbiFrame] offset)
  modify fun machine => { machine with usesFrame := true }

def bregN (regnum : Nat) : Method Unit := do
  let offset ← decodeSleb
  push (offsetText (charCast ++ getRegText regnum) offset)

def bregx : Method Unit := do
  let regnum ← decodeLeb
  bregN regnum

def minus : Method Unit := do
  let a ← pop
  let b ← pop
  push (voidCast ++ charText a ++ .minus :: charText b)

def plus : Method Unit := do
  let a ← pop
  let b ← pop
  push (voidCast ++ charText a ++ .plus :: charText b)

def regN (n : Nat) : Method Text := return getRegText n

def regx : Method Text := do
  let regnum ← decodeLeb
  return getRegText regnum

def stackValue : Method Text := pop

/-- A method that returns `None`. -/
def returnsNone (method : Method Unit) : Method (Option Text) := do
  method
  return none

/-- `getattr(self, opcode_name, self.unsupported)`, called. -/
def call : Option Opcode → Method (Option Text)
  | none => throw .notImplementedError
  | some .addr => returnsNone addr
  | some (.const fmt) => returnsNone (constXX fmt)
  | some .constu => returnsNone constu
  | some .consts => returnsNone consts
  | some .dup => returnsNone dup
  | some .drop => returnsNone drop
  | some .«over» => returnsNone «over»
  | some .pick => returnsNone pick
  | some .swap => returnsNone swap
  | some .rot => returnsNone rot
  | some .minus => returnsNone minus
  | some .plus => returnsNone plus
  | some (.lit n) => returnsNone (litX n)
  | some (.reg n) => some <$> regN n
  | some (.breg n) => returnsNone (bregN n)
  | some .regx => some <$> regx
  | some .fbreg => returnsNone fbreg
  | some .bregx => returnsNone bregx
  | some .nop => returnsNone (pure ())
  | some .callFrameCfa => returnsNone callFrameCfa
  | some .stackValue => some <$> stackValue

/-- The loop of `Machine.run`, with fuel for its rounds. -/
def loop : Nat → Machine → Option (Except Error Result)
  | 0, _ => none
  | fuel + 1, machine =>
    match machine.expression with
    | [] =>
      match machine.stack with
      | [] => some (.error .valueError)
      | text :: _ => some (.ok ⟨text, true, machine.usesFrame, machine.usesCfa⟩)
    | opcode :: rest =>
      match opcodes opcode with
      | none => some (.error .valueError)
      | some name =>
        match call name { machine with expression := rest } with
        | .error e _ => some (.error e)
        | .ok (some ret) machine => some (.ok ⟨ret, false, machine.usesFrame, machine.usesCfa⟩)
        | .ok none machine => loop fuel machine

/-- `eval_DWARF_expr`. Every round but the last one reads a byte. -/
def run (expression : Bytes) : Option (Except Error Result) :=
  loop (expression.length + 1) ⟨[], expression, false, false⟩

end Adbi.Dwexpr
