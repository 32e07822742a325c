import Adbi.Dwexpr
import Adbi.Lib.Runs

/-! What `Machine` makes of a DWARF expression, against the meaning of the expression.
Whatever the target is, it reads addresses of four bytes; the texts on its stack are those
of the values read so, as long as no constant of a fixed size is met, and a text has the
value unless it comes from an addition or a subtraction. -/
namespace Adbi.DwexprProofs
open Adbi.Lib Adbi.Dwexpr
open Adbi.Dwarf (AddressSize Format Opcode Value Env Effect Malformed Outcome Evaluation opcodes
  uleb128 sleb128 evaluate)

/-! ## LEB128 -/

private theorem byte_group (b : BitVec 8) : (b &&& 0x7f#8).toNat = if b.toNat < 128 then b.toNat
    else b.toNat - 128 := by
  revert b
  decide

private theorem byte_last (b : BitVec 8) : b &&& 0x80#8 = 0#8 ↔ b.toNat < 128 := by
  revert b
  decide

private theorem byte_sign (b : BitVec 8) (last : b.toNat < 128) : b &&& 0x40#8 = 0#8 ↔ b.toNat < 64 := by
  revert b
  decide

/-- A group of bits goes above those that are there. -/
private theorem or_group {result shift : Nat} (small : result < 2 ^ shift) (group : Nat) :
    result ||| (group <<< shift) = result + 2 ^ shift * group := by
  rw [Nat.shiftLeft_eq, Nat.mul_comm group, Nat.lor_comm, Nat.add_comm]
  exact (Nat.two_pow_add_eq_or_of_lt small group).symm

/-- The loop reads the number of the specification, whose sign is in the last byte. -/
theorem leb_loop (bytes : Bytes) (result shift : Nat) (small : result < 2 ^ shift) :
    (uleb128 bytes = none ∧ sleb128 bytes = none ∧ lebLoop result shift bytes = .error .valueError) ∨
    ∃ n size last, uleb128 bytes = some (n, size) ∧ n < 2 ^ (7 * size) ∧
      sleb128 bytes = some (if last &&& 0x40#8 = 0#8 then (n : Int) else n - 2 ^ (7 * size), size) ∧
      lebLoop result shift bytes = .ok (result + 2 ^ shift * n, shift + 7 * size, last,
        bytes.drop size) := by
  induction bytes generalizing result shift with
  | nil => exact .inl ⟨rfl, rfl, rfl⟩
  | cons b rest ih =>
    by_cases last : b.toNat < 128
    · right
      refine ⟨b.toNat, 1, b, ?_, last, ?_, ?_⟩
      · rw [uleb128, if_pos last]
      · rw [sleb128]
        by_cases low : b.toNat < 64
        · rw [if_pos low, if_pos ((byte_sign b last).mpr low)]
        · rw [if_neg low, if_pos last, if_neg (mt (byte_sign b last).mp low)]
          rfl
      · rw [lebLoop, if_pos ((byte_last b).mpr last), or_group small, byte_group, if_pos last]
        rfl
    · have byte := b.isLt
      have bound : result + 2 ^ shift * (b.toNat - 128) < 2 ^ (shift + 7) := by
        have group : 2 ^ shift * (b.toNat - 128) ≤ 2 ^ shift * 127 := Nat.mul_le_mul_left _ (by omega)
        rw [Nat.pow_add]
        omega
      have next : lebLoop result shift (b :: rest) =
          lebLoop (result + 2 ^ shift * (b.toNat - 128)) (shift + 7) rest := by
        rw [lebLoop, if_neg (mt (byte_last b).mp last), or_group small, byte_group, if_neg last]
      have notLow : ¬ b.toNat < 64 := by omega
      rw [next, uleb128, if_neg last, sleb128, if_neg notLow, if_neg last]
      rcases ih _ _ bound with ⟨noUleb, noSleb, failed⟩ | ⟨n, size, final, uleb, small, sleb, read⟩
      · exact .inl ⟨by rw [noUleb]; rfl, by rw [noSleb]; rfl, failed⟩
      · right
        refine ⟨b.toNat - 128 + 128 * n, size + 1, final, by rw [uleb]; rfl, ?_, ?_, ?_⟩
        · rw [Nat.mul_succ, Nat.pow_add]
          omega
        · rw [sleb]
          simp only [Option.map_some, Option.some.injEq, Prod.mk.injEq, and_true]
          have power : (2 : Int) ^ (7 * (size + 1)) = 128 * 2 ^ (7 * size) := by
            rw [Nat.mul_succ, Int.pow_add]
            omega
          split
          · omega
          · rw [power]
            omega
        · rw [read]
          simp only [List.drop_succ_cons, Except.ok.injEq, Prod.mk.injEq, and_true]
          refine ⟨?_, by omega⟩
          rw [Nat.pow_add, Nat.mul_add, Nat.mul_assoc, Nat.add_assoc]

variable (stack : List Text) (bytes : Bytes) (frame cfa : Bool)

/-- The unsigned number is read, or the bytes are cut off. -/
theorem decode_leb :
    decodeLeb ⟨stack, bytes, frame, cfa⟩ =
      match uleb128 bytes with
      | some (n, size) => .ok n ⟨stack, bytes.drop size, frame, cfa⟩
      | none => .error .valueError ⟨stack, bytes, frame, cfa⟩ := by
  rcases leb_loop bytes 0 0 (by simp) with ⟨uleb, _, failed⟩ | ⟨n, size, last, uleb, _, _, read⟩
  · simp [decodeLeb, readLeb, uleb, failed]
  · simp [decodeLeb, readLeb, uleb, read]

/-- Setting all bits from one above the number on makes it negative. -/
theorem lor_sign {n size : Nat} (small : n < 2 ^ size) :
    Int.lor n (-((1 : Int) <<< size)) = (n : Int) - 2 ^ size := by
  have positive := Nat.two_pow_pos size
  have cast : ((2 ^ size : Nat) : Int) = 2 ^ size := by simp
  have negative : -((1 : Int) <<< size) = Int.negSucc (2 ^ size - 1) := by
    rw [Int.shiftLeft_eq, Int.one_mul, Int.negSucc_eq]
    omega
  have missing : Nat.ldiff (2 ^ size - 1) n = 2 ^ size - (n + 1) := by
    apply Nat.eq_of_testBit_eq
    intro i
    rw [Nat.testBit_ldiff, Nat.testBit_two_pow_sub_one, Nat.testBit_two_pow_sub_succ small]
  rw [negative]
  change Int.negSucc (Nat.ldiff (2 ^ size - 1) n) = _
  rw [missing, Int.negSucc_eq]
  omega

/-- The same for the signed number. -/
theorem decode_sleb :
    decodeSleb ⟨stack, bytes, frame, cfa⟩ =
      match sleb128 bytes with
      | some (n, size) => .ok n ⟨stack, bytes.drop size, frame, cfa⟩
      | none => .error .valueError ⟨stack, bytes, frame, cfa⟩ := by
  rcases leb_loop bytes 0 0 (by simp) with ⟨_, sleb, failed⟩ | ⟨n, size, last, _, small, sleb, read⟩
  · simp [decodeSleb, readLeb, sleb, failed]
  · by_cases sign : last &&& 0x40#8 = 0#8
    · simp [decodeSleb, readLeb, sleb, read, sign]
    · have filled := lor_sign small
      simp [decodeSleb, readLeb, sleb, read, sign, filled]

/-! ## The texts of the values -/

def render : Value → Text
  | .constant n => hexText n
  | .address a => voidCast ++ hexText a
  | .register n offset => offsetText (charCast ++ getRegText n) offset
  | .frame offset => offsetText [.ident .adbiFrame] offset
  | .cfa => [.ident .adbiCfa]
  | .plus second top => voidCast ++ charText (render top) ++ .plus :: charText (render second)
  | .minus second top => voidCast ++ charText (render top) ++ .minus :: charText (render second)

def reported : Malformed → Error
  | .badIndex => .indexError
  | _ => .valueError

def isConst : Opcode → Bool
  | .const _ => true
  | _ => false

/-- A method has done what the operation means. -/
def Performed (opcode : Opcode) (frame cfa : Bool) (bytes : Bytes)
    (ended : EStateM.Result Error Machine (Option Text)) :
    Except Malformed Effect → Prop
  | .error reason => ∃ machine, ended = .error (reported reason) machine
  | .ok (.next stack size) =>
    ended = .ok none ⟨stack.map render, bytes.drop size, frame || opcode = .fbreg, cfa || opcode =
      .callFrameCfa⟩
  | .ok (.inRegister n) =>
    ∃ stack bytes, ended = .ok (some (getRegText n)) ⟨stack, bytes, frame || opcode = .fbreg,
      cfa || opcode = .callFrameCfa⟩
  | .ok (.isValue v) =>
    ∃ stack bytes, ended = .ok (some (render v)) ⟨stack, bytes, frame || opcode = .fbreg,
      cfa || opcode = .callFrameCfa⟩

/-- Each method does, but those of the constants of a fixed size. -/
theorem call_performed (opcode : Opcode) (values : List Value) (variable_size : isConst opcode = false) :
    Performed opcode frame cfa bytes (call (some opcode) ⟨values.map render, bytes, frame, cfa⟩)
    (Dwarf.step .four opcode bytes values) := by
  cases opcode with
  | addr =>
    by_cases short : bytes.length < 4
    · have cut : ¬ 4 ≤ bytes.length := by omega
      simp [Performed, Dwarf.step, AddressSize.bytes, short, cut, call, returnsNone, addr,
        Dwexpr.read, reported]
    · have whole : 4 ≤ bytes.length := by omega
      simp [Performed, Dwarf.step, AddressSize.bytes, AddressSize.bits, short, whole, call,
        returnsNone, addr,
        Dwexpr.read, push, render]
  | const fmt => cases variable_size
  | constu =>
    cases decoded : uleb128 bytes with
    | none =>
      simp [Performed, Dwarf.step, Dwarf.operand, decoded, call, returnsNone, constu,
        decode_leb, reported]
    | some number =>
      simp [Performed, Dwarf.step, Dwarf.operand, decoded, call, returnsNone, constu, decode_leb,
        push, render]
  | consts =>
    cases decoded : sleb128 bytes with
    | none =>
      simp [Performed, Dwarf.step, Dwarf.operand, decoded, call, returnsNone, consts,
        decode_sleb, reported]
    | some number =>
      simp [Performed, Dwarf.step, Dwarf.operand, decoded, call, returnsNone, consts, decode_sleb,
        push, render]
  | dup =>
    cases values with
    | nil => exact ⟨_, rfl⟩
    | cons a values => simp [Performed, Dwarf.step, call, returnsNone, dup, pop, push]
  | drop =>
    cases values with
    | nil => exact ⟨_, rfl⟩
    | cons a values => simp [Performed, Dwarf.step, call, returnsNone, drop, pop, run_map]
  | «over» =>
    rcases values with _ | ⟨a, _ | ⟨b, values⟩⟩
    · exact ⟨_, rfl⟩
    · exact ⟨_, rfl⟩
    · simp [Performed, Dwarf.step, call, returnsNone, «over», pop, push]
  | pick =>
    cases bytes with
    | nil => exact ⟨_, rfl⟩
    | cons index rest =>
      cases picked : values[index.toNat]? with
      | none =>
        simp [Performed, Dwarf.step, picked, call, returnsNone, pick, Dwexpr.read,
          ofLittleEndian, reported]
      | some v =>
        simp [Performed, Dwarf.step, picked, call, returnsNone, pick, Dwexpr.read, push, ofLittleEndian]
  | swap =>
    rcases values with _ | ⟨a, _ | ⟨b, values⟩⟩
    · exact ⟨_, rfl⟩
    · exact ⟨_, rfl⟩
    · simp [Performed, Dwarf.step, call, returnsNone, swap, pop, push]
  | rot =>
    rcases values with _ | ⟨a, _ | ⟨b, _ | ⟨c, values⟩⟩⟩
    · exact ⟨_, rfl⟩
    · exact ⟨_, rfl⟩
    · exact ⟨_, rfl⟩
    · simp [Performed, Dwarf.step, call, returnsNone, rot, pop, push]
  | minus =>
    rcases values with _ | ⟨a, _ | ⟨b, values⟩⟩
    · exact ⟨_, rfl⟩
    · exact ⟨_, rfl⟩
    · simp [Performed, Dwarf.step, call, returnsNone, minus, pop, push, render]
  | plus =>
    rcases values with _ | ⟨a, _ | ⟨b, values⟩⟩
    · exact ⟨_, rfl⟩
    · exact ⟨_, rfl⟩
    · simp [Performed, Dwarf.step, call, returnsNone, plus, pop, push, render]
  | lit n => simp [Performed, Dwarf.step, call, returnsNone, litX, push, render]
  | reg n => simp [Performed, Dwarf.step, call, regN]
  | breg n =>
    cases decoded : sleb128 bytes with
    | none =>
      simp [Performed, Dwarf.step, Dwarf.operand, decoded, call, returnsNone, bregN,
        decode_sleb, reported]
    | some number =>
      simp [Performed, Dwarf.step, Dwarf.operand, decoded, call, returnsNone, bregN, decode_sleb,
        push, render]
  | regx =>
    cases decoded : uleb128 bytes with
    | none =>
      simp [Performed, Dwarf.step, Dwarf.operand, decoded, call, regx, run_map, decode_leb, reported]
    | some number =>
      simp [Performed, Dwarf.step, Dwarf.operand, decoded, call, regx, run_map, decode_leb]
  | fbreg =>
    cases decoded : sleb128 bytes with
    | none =>
      simp [Performed, Dwarf.step, Dwarf.operand, decoded, call, returnsNone, fbreg,
        decode_sleb, reported]
    | some number =>
      simp [Performed, Dwarf.step, Dwarf.operand, decoded, call, returnsNone, fbreg, decode_sleb,
        push, render]
  | bregx =>
    cases decoded : uleb128 bytes with
    | none =>
      simp [Performed, Dwarf.step, Dwarf.operand, decoded, error_bind, call, returnsNone, bregx,
        decode_leb, reported]
    | some number =>
      obtain ⟨n, size⟩ := number
      cases later : sleb128 (bytes.drop size) with
      | none =>
        simp [Performed, Dwarf.step, Dwarf.operand, decoded, later, ok_bind, call, returnsNone,
          bregx, bregN, decode_leb, decode_sleb, reported]
      | some offset =>
        simp [Performed, Dwarf.step, Dwarf.operand, decoded, later, ok_bind, call, returnsNone,
          bregx, bregN, decode_leb, decode_sleb, push, render]
  | nop => simp [Performed, Dwarf.step, call, returnsNone]
  | callFrameCfa => simp [Performed, Dwarf.step, call, returnsNone, callFrameCfa, push, render]
  | stackValue =>
    cases values with
    | nil => exact ⟨_, rfl⟩
    | cons a values => simp [Performed, Dwarf.step, call, run_map, stackValue, pop]

/-! ## Whole expressions -/

/-- What `Machine` gives for an evaluation, with the flags that are set already. -/
def compiled (evaluation : Evaluation) (frame cfa : Bool) : Except Error Result :=
  if evaluation.executed.any isConst then .error .structError
  else
    let frame := frame || decide (.fbreg ∈ evaluation.executed)
    let cfa := cfa || decide (.callFrameCfa ∈ evaluation.executed)
    match evaluation.outcome with
    | .malformed reason => .error (reported reason)
    | .unimplemented => .error .notImplementedError
    | .location v => .ok ⟨render v, true, frame, cfa⟩
    | .inRegister n => .ok ⟨getRegText n, false, frame, cfa⟩
    | .isValue v => .ok ⟨render v, false, frame, cfa⟩

private theorem compiled_after {opcode : Opcode} (variable_size : isConst opcode = false)
    (evaluation : Evaluation) :
    compiled (evaluation.after opcode) frame cfa = compiled evaluation (frame || opcode = .fbreg)
    (cfa || opcode = .callFrameCfa) := by
  simp only [compiled, Evaluation.after, List.any_cons, variable_size, Bool.false_or, List.mem_cons,
    Bool.decide_or, Bool.or_assoc,
    eq_comm (a := opcode)]

private theorem call_const {opcode : Opcode} (fixed : isConst opcode = true) (machine : Machine) :
    call (some opcode) machine = .error .structError machine := by
  cases opcode with
  | const fmt => rfl
  | _ => cases fixed

/-- The executed operations begin with the first one. -/
private theorem compiled_const {opcode : Opcode} {executed : List Opcode}
    (fixed : isConst opcode = true) (outcome : Dwarf.Outcome) :
    compiled ⟨outcome, opcode :: executed⟩ frame cfa = .error .structError := by
  simp [compiled, fixed]

private theorem loop_call {byte : BitVec 8} {name : Option Opcode}
    (known : opcodes byte = some name) (fuel : Nat) (rest : Bytes) :
    loop (fuel + 1) ⟨stack, byte :: rest, frame, cfa⟩ =
      match call name ⟨stack, rest, frame, cfa⟩ with
      | .error e _ => some (.error e)
      | .ok (some ret) machine => some (.ok ⟨ret, false, machine.usesFrame, machine.usesCfa⟩)
      | .ok none machine => loop fuel machine := by
  rcases result : call name ⟨stack, rest, frame, cfa⟩ with
      ⟨_ | ret, machine⟩ | e <;> simp only [loop, known, result]

private theorem evaluate_step {size : AddressSize} {byte : BitVec 8} {opcode : Opcode}
    (known : opcodes byte = some (some opcode)) (rest : Bytes) (values : List Value) :
    evaluate size (byte :: rest) values =
      match Dwarf.step size opcode rest values with
      | .error reason => ⟨.malformed reason, [opcode]⟩
      | .ok (.inRegister n) => ⟨.inRegister n, [opcode]⟩
      | .ok (.isValue v) => ⟨.isValue v, [opcode]⟩
      | .ok (.next values length) => (evaluate size (rest.drop length) values).after opcode := by
  rw [evaluate]
  rcases result : Dwarf.step size opcode rest values with reason | (⟨values', length⟩ | n | v) <;>
      simp only [known, result]

/-- The machine follows the evaluation; the induction is on the bytes that are left. -/
theorem loop_compiled (fuel : Nat) (values : List Value) (enough : bytes.length < fuel) :
    loop fuel ⟨values.map render, bytes, frame, cfa⟩ =
      some (compiled (evaluate .four bytes values) frame cfa) := by
  induction fuel generalizing bytes values frame cfa with
  | zero => omega
  | succ fuel ih =>
    cases bytes with
    | nil =>
      cases values with
      | nil => simp [loop, evaluate, compiled, reported]
      | cons v values => simp [loop, evaluate, compiled]
    | cons byte rest =>
      cases known : opcodes byte with
      | none => simp [loop, evaluate, known, compiled, reported]
      | some name =>
        cases name with
        | none => simp [loop, evaluate, known, call, compiled]
        | some opcode =>
          rw [loop_call _ _ _ known, evaluate_step known]
          by_cases fixed : isConst opcode = true
          · rw [call_const fixed]
            cases stepped : Dwarf.step .four opcode rest values with
            | error reason => rw [compiled_const _ _ fixed]
            | ok effect =>
              cases effect with
              | next values size => exact (congrArg some (compiled_const _ _ fixed _)).symm
              | inRegister n => rw [compiled_const _ _ fixed]
              | isValue v => rw [compiled_const _ _ fixed]
          · have variable_size := Bool.eq_false_iff.mpr fixed
            have performed := call_performed rest frame cfa opcode values variable_size
            cases stepped : Dwarf.step .four opcode rest values with
            | error reason =>
              rw [stepped] at performed
              obtain ⟨machine, ended⟩ := performed
              simp [ended, compiled, variable_size]
            | ok effect =>
              rw [stepped] at performed
              cases effect with
              | next later size =>
                have ended : call (some opcode) _ = _ := performed
                rw [ended, compiled_after _ _ variable_size]
                exact ih _ _ _ _ (by simp at enough ⊢; omega)
              | inRegister n =>
                obtain ⟨left, unread, ended⟩ := performed
                simp [ended, compiled, variable_size, eq_comm (a := opcode)]
              | isValue v =>
                obtain ⟨left, unread, ended⟩ := performed
                simp [ended, compiled, variable_size, eq_comm (a := opcode)]

/-! ## The value of a text -/

def hexExpr (n : Int) : C.Expr Name := if n < 0 then .neg (.number n.natAbs) else .number n.natAbs

def offsetExpr (base : C.Expr Name) (offset : Int) : C.Expr Name :=
  if offset > 0 then .add base (.number offset.natAbs)
  else if offset < 0 then .sub base (.number offset.natAbs)
  else base

/-- The expression that a text is parsed to. -/
def exprOf : Value → C.Expr Name
  | .constant n => hexExpr n
  | .address a => .cast .void (hexExpr a)
  | .register n offset => offsetExpr (.cast .char (.call .getReg n)) offset
  | .frame offset => offsetExpr (.var .adbiFrame) offset
  | .cfa => .var .adbiCfa
  | .plus second top => .add (.cast .void (.cast .char (exprOf top))) (.cast .char (exprOf second))
  | .minus second top => .sub (.cast .void (.cast .char (exprOf top))) (.cast .char (exprOf second))

private theorem castText_hexText (n : Int) : C.CastText (hexText n) (hexExpr n) := by
  rw [hexText, hexExpr]
  split
  · exact C.castText_neg (C.castText_hex _)
  · exact C.castText_hex _

private theorem hexText_natAbs (n : Int) : hexText n.natAbs = [.hex n.natAbs] := by
  have positive : ¬ (n.natAbs : Int) < 0 := by omega
  rw [hexText, if_neg positive]
  rfl

private theorem sumText_offsetText {base : Text} {e : C.Expr Name} (parsed : C.CastText base e)
    (offset : Int) :
    C.SumText (offsetText base offset) (offsetExpr e offset) := by
  rw [offsetText, offsetExpr]
  split
  case isTrue positive =>
    have same := hexText_natAbs offset
    rw [Int.natAbs_of_nonneg (by omega)] at same
    rw [same]
    exact C.sumText_add parsed (C.castText_hex _)
  case isFalse notPositive =>
    split
    · rw [hexText_natAbs]
      exact C.sumText_sub parsed (C.castText_hex _)
    · exact C.sumText_cast parsed

private theorem castText_charText {text : Text} {e : C.Expr Name} (parsed : C.SumText text e) :
    C.CastText (charText text) (.cast .char e) :=
  C.castText_paren (C.sumText_cast (C.castText_char (C.castText_paren parsed)))

theorem sumText_render (v : Value) : C.SumText (render v) (exprOf v) := by
  induction v with
  | constant n => exact C.sumText_cast (castText_hexText n)
  | address a => exact C.sumText_cast (C.castText_void (castText_hexText a))
  | register n offset => exact sumText_offsetText (C.castText_char (C.castText_call _ n)) offset
  | frame offset => exact sumText_offsetText (C.castText_var _) offset
  | cfa => exact C.sumText_cast (C.castText_var _)
  | plus second top ih_second ih_top =>
    exact C.sumText_add (C.castText_void (castText_charText ih_top)) (castText_charText ih_second)
  | minus second top ih_second ih_top =>
    exact C.sumText_sub (C.castText_void (castText_charText ih_top)) (castText_charText ih_second)

variable {size : AddressSize}

/-- The identifiers stand for what the DWARF expression refers to. -/
def cEnv (env : Env size) : C.Env Name size.bits where
  var
    | .adbiFrame => env.frame
    | .adbiCfa => env.cfa
    | .getReg => 0
  call
    | .getReg, n => env.register n
    | _, _ => 0

/-- The value needs no addition or subtraction, and its numbers are numbers of C. -/
def Plain : Value → Prop
  | .constant n => n.natAbs < 2 ^ 64
  | .address a => a < 2 ^ 64
  | .register n offset => n < 2 ^ 63 ∧ offset.natAbs < 2 ^ 64
  | .frame offset => offset.natAbs < 2 ^ 64
  | .cfa => True
  | .plus _ _ => False
  | .minus _ _ => False

/-- The value that C has for the text of a plain value: a number from `-0xffffffff` to `-0x80000000`
is the negation of an `unsigned int`, and so a positive number. -/
def inC : Value → Value
  | .constant n => .constant (if n < 0 then C.negated n.natAbs else n)
  | v => v

private theorem bits_le (size : AddressSize) : size.bits ≤ 64 := by cases size <;> decide

private theorem eval_hexExpr (c : C.Env Name size.bits) {n : Int} (small : n.natAbs < 2 ^ 64) :
    ∃ v, C.eval c (hexExpr n) = some v ∧
      v.address = BitVec.ofInt size.bits (if n < 0 then C.negated n.natAbs else n) := by
  rw [hexExpr]
  split
  case isTrue negative => exact C.eval_neg_number small (bits_le size)
  case isFalse positive =>
    obtain ⟨type, -, evaluated⟩ := C.eval_number c small
    refine ⟨_, evaluated, ?_⟩
    rw [C.Value.address, Int.natAbs_of_nonneg (by omega)]

private theorem eval_hexExpr_large (c : C.Env Name size.bits) {n : Int} (large : ¬ n.natAbs < 2 ^ 64) :
    C.eval c (hexExpr n) = none := by
  rw [hexExpr]
  split <;> simp only [C.eval, C.hexType_large large, Option.map_none]

private theorem eval_offsetExpr (c : C.Env Name size.bits) {base : C.Expr Name} {pointee : C.Pointee}
    {value : BitVec size.bits} (evaluated : C.eval c base = some (.pointer pointee value))
    (offset : Int) :
    C.eval c (offsetExpr base offset) =
      if offset.natAbs < 2 ^ 64 then some (.pointer pointee (value + BitVec.ofInt size.bits offset))
        else none := by
  by_cases small : offset.natAbs < 2 ^ 64
  · obtain ⟨type, -, number⟩ := C.eval_number c small
    rw [if_pos small, offsetExpr]
    split
    case isTrue positive =>
      rw [C.eval, evaluated, number]
      simp only [Int.natAbs_of_nonneg (show 0 ≤ offset by omega)]
    case isFalse notPositive =>
      split
      case isTrue negative =>
        have opposite : ((offset.natAbs : Nat) : Int) = -offset := by omega
        rw [C.eval, evaluated, number]
        simp only [opposite, BitVec.ofInt_neg, BitVec.sub_eq_add_neg, BitVec.neg_neg]
      case isFalse notNegative =>
        obtain rfl : offset = 0 := by omega
        simp [evaluated]
  · rw [if_neg small, offsetExpr]
    split
    · simp only [C.eval, evaluated, C.hexType_large small, Option.map_none]
    · split
      · simp only [C.eval, evaluated, C.hexType_large small, Option.map_none]
      · omega

private theorem eval_offsetExpr_none (c : C.Env Name size.bits) {base : C.Expr Name}
    (unevaluated : C.eval c base = none) (offset : Int) : C.eval c (offsetExpr base offset) = none := by
  rw [offsetExpr]
  split
  · simp only [C.eval, unevaluated]
  · split
    · simp only [C.eval, unevaluated]
    · exact unevaluated

private theorem eval_call (env : Env size) (n : Nat) : C.eval (cEnv env) (.call .getReg n) =
    if n < 2 ^ 63 then some (.int ⟨size.bits, true⟩ (env.register n).toNat) else none := rfl

private theorem eval_register (env : Env size) {n : Nat} (known : n < 2 ^ 63) :
    C.eval (cEnv env) (.cast .char (.call .getReg n)) = some (.pointer .char (env.register n)) := by
  rw [C.eval, eval_call, if_pos known, Option.map_some, C.Value.address, BitVec.ofInt_natCast,
    BitVec.ofNat_toNat,
    BitVec.setWidth_eq]

/-- A plain value is that of the expression, as C reads it. -/
theorem eval_plain {v : Value} (plain : Plain v) (env : Env size) :
    ∃ value, C.eval (cEnv env) (exprOf v) = some value ∧ value.address = (inC v).eval env := by
  cases v with
  | constant n => exact eval_hexExpr (cEnv env) plain
  | address a =>
    have small : (a : Int).natAbs < 2 ^ 64 := plain
    have positive : ¬(a : Int) < 0 := by omega
    obtain ⟨value, evaluated, address⟩ := eval_hexExpr (cEnv env) small
    refine ⟨.pointer .void value.address, by rw [exprOf, C.eval, evaluated, Option.map_some], ?_⟩
    rw [C.Value.address, address, if_neg positive, BitVec.ofInt_natCast]
    rfl
  | register n offset =>
    exact ⟨_, (eval_offsetExpr _ (eval_register env plain.1) offset).trans (if_pos plain.2), rfl⟩
  | frame offset =>
    have base : C.eval (cEnv env) (.var .adbiFrame) = some (.pointer .char env.frame) := rfl
    exact ⟨_, (eval_offsetExpr _ base offset).trans (if_pos plain), rfl⟩
  | cfa => exact ⟨_, rfl, rfl⟩
  | plus second top => exact plain.elim
  | minus second top => exact plain.elim

/-- Two pointers are not added, and pointers of two types are not subtracted. -/
private theorem eval_pointers (c : C.Env Name size.bits) (a b : C.Expr Name) :
    C.eval c (.add (.cast .void a) (.cast .char b)) = none ∧
    C.eval c (.sub (.cast .void a) (.cast .char b)) = none := by
  simp only [C.eval]
  cases C.eval c a <;> cases C.eval c b <;> exact ⟨rfl, rfl⟩

/-- Any other expression has no value. -/
theorem eval_not_plain {v : Value} (notPlain : ¬ Plain v) (env : Env size) :
    C.eval (cEnv env) (exprOf v) = none := by
  cases v with
  | constant n => exact eval_hexExpr_large _ notPlain
  | address a =>
    have large : ¬(a : Int).natAbs < 2 ^ 64 := notPlain
    rw [exprOf, C.eval, eval_hexExpr_large _ large, Option.map_none]
  | register n offset =>
    by_cases known : n < 2 ^ 63
    · exact (eval_offsetExpr _ (eval_register env known) offset).trans (if_neg fun small =>
        notPlain ⟨known, small⟩)
    · have base : C.eval (cEnv env) (.cast .char (.call .getReg n)) = none := by
        rw [C.eval, eval_call, if_neg known]
        rfl
      exact eval_offsetExpr_none _ base offset
  | frame offset =>
    have base : C.eval (cEnv env) (.var .adbiFrame) = some (.pointer .char env.frame) := rfl
    exact (eval_offsetExpr _ base offset).trans (if_neg notPlain)
  | cfa => exact (notPlain trivial).elim
  | plus second top => exact (eval_pointers _ _ _).1
  | minus second top => exact (eval_pointers _ _ _).2

/-! ## What is compiled -/

/-- The text is a C expression, of whatever type, with the value. -/
def Denotes (text : Text) (value : Env size → BitVec size.bits) : Prop :=
  ∃ e, C.parse text = some e ∧ ∀ env, ∃ result, C.eval (cEnv env) e = some result ∧
  result.address = value env

def NeedsFrame (value : Env size → BitVec size.bits) : Prop :=
  ∃ env frame, value { env with frame := frame } ≠ value env

def NeedsCfa (value : Env size → BitVec size.bits) : Prop :=
  ∃ env cfa, value { env with cfa := cfa } ≠ value env

/-- The result is that of the expression, which has this meaning. -/
structure Represents (result : Result) (value : Env size → BitVec size.bits) (isAddress : Bool) :
    Prop where
  denotes : Denotes result.expression value
  kind : result.isAddress = isAddress
  frame : result.usesFrame = true ↔ NeedsFrame value
  cfa : result.usesCfa = true ↔ NeedsCfa value

/-- The machine does with an expression what its meaning on the target demands, if it implements the
operations. -/
def Compiles (size : AddressSize) (bytes : Bytes) : Prop :=
  match (evaluate size bytes []).outcome with
  | .malformed _ => run bytes = some (.error .valueError)
  | .unimplemented => True
  | .location v =>
    ∃ result, run bytes = some (.ok result) ∧ Represents result (fun env : Env size => v.eval env) true
  | .inRegister n =>
    ∃ result, run bytes = some (.ok result) ∧
      Represents result (fun env : Env size => env.register n) false
  | .isValue v =>
    ∃ result, run bytes = some (.ok result) ∧ Represents result (fun env : Env size => v.eval env) false

/-- The flags fit to a value that is the frame base or the CFA, or neither. -/
structure Suits (v : Value) (executed : List Opcode) : Prop where
  plain : Plain v
  frame : .fbreg ∈ executed ↔ ∃ offset, v = .frame offset
  cfa : .callFrameCfa ∈ executed ↔ v = .cfa

/-- The evaluations that the machine can follow. -/
def Sound (read : Evaluation) : Prop :=
  read.executed.any isConst = false ∧
    match read.outcome with
    | .unimplemented => False
    | .malformed reason => reason ≠ .badIndex
    | .location v => Suits v read.executed
    | .inRegister n => n < 2 ^ 63 ∧ .fbreg ∉ read.executed ∧ .callFrameCfa ∉ read.executed
    | .isValue v => Suits v read.executed

/-- What is read comes to the same as what is there on the target. -/
def Agrees (size : AddressSize) (read : Outcome) : Outcome → Prop
  | .malformed _ => ∃ reason, read = .malformed reason
  | target => ∀ env : Env size, (read.map inC).meaning env = target.meaning env

/-- The expressions that the machine compiles, though it reads addresses of four bytes. -/
def Compilable (size : AddressSize) (bytes : Bytes) : Prop :=
  (evaluate size bytes []).outcome = .unimplemented ∨
    Agrees size (evaluate .four bytes []).outcome (evaluate size bytes []).outcome ∧
    Sound (evaluate .four bytes [])

/-- An environment in which everything is zero. -/
private def zeros : Env size := ⟨fun _ => 0, 0, 0⟩

theorem denotes_iff (v : Value) (value : Env size → BitVec size.bits) :
    Denotes (render v) value ↔ Plain v ∧ ∀ env, (inC v).eval env = value env := by
  have parsed := C.parse_of_sumText (sumText_render v)
  constructor
  · rintro ⟨e, same, evaluated⟩
    obtain rfl : exprOf v = e := Option.some.inj (parsed.symm.trans same)
    have plain : Plain v := by
      by_contra notPlain
      obtain ⟨result, some_value, -⟩ := evaluated zeros
      rw [eval_not_plain notPlain] at some_value
      cases some_value
    refine ⟨plain, fun env => ?_⟩
    obtain ⟨result, some_value, address⟩ := evaluated env
    obtain ⟨result', some_value', address'⟩ := eval_plain plain env
    obtain rfl : result = result' := Option.some.inj (some_value.symm.trans some_value')
    exact address'.symm.trans address
  · rintro ⟨plain, same⟩
    refine ⟨_, parsed, fun env => ?_⟩
    obtain ⟨result, some_value, address⟩ := eval_plain plain env
    exact ⟨result, some_value, address.trans (same env)⟩

private theorem denotes_register (n : Nat) (value : Env size → BitVec size.bits) :
    Denotes (getRegText n) value ↔ n < 2 ^ 63 ∧ ∀ env, env.register n = value env := by
  have parsed : C.parse (getRegText n) = some (.call .getReg n) :=
    C.parse_of_sumText (C.sumText_cast (C.castText_call _ n))
  have address : ∀ env : Env size, (C.Value.int ⟨size.bits, true⟩ (env.register n).toNat).address =
      env.register n := by
    intro env
    rw [C.Value.address, BitVec.ofInt_natCast, BitVec.ofNat_toNat, BitVec.setWidth_eq]
  constructor
  · rintro ⟨e, same, evaluated⟩
    obtain rfl : C.Expr.call .getReg n = e := Option.some.inj (parsed.symm.trans same)
    have small : n < 2 ^ 63 := by
      by_contra large
      obtain ⟨result, some_value, -⟩ := evaluated zeros
      rw [eval_call, if_neg large] at some_value
      cases some_value
    refine ⟨small, fun env => ?_⟩
    obtain ⟨result, some_value, same⟩ := evaluated env
    rw [eval_call, if_pos small] at some_value
    obtain rfl := Option.some.inj some_value
    exact (address env).symm.trans same
  · rintro ⟨small, same⟩
    exact ⟨_, parsed, fun env =>
      ⟨_, (eval_call env n).trans (if_pos small), (address env).trans (same env)⟩⟩

private theorem frame_needed (width : 0 < size.bits) {offset : Int} :
    NeedsFrame fun env : Env size => (Value.frame offset).eval env := by
  refine ⟨zeros, 1, fun same => ?_⟩
  have one : (1 : BitVec size.bits) = 0 := (BitVec.add_left_inj _).mp same
  have bit := congrArg (fun v : BitVec size.bits => v.toNat) one
  simp [Nat.pos_iff_ne_zero.mp width] at bit

private theorem bits_pos (size : AddressSize) : 0 < size.bits := by cases size <;> decide

theorem needsFrame_iff {v : Value} (plain : Plain v) :
    NeedsFrame (fun env : Env size => (inC v).eval env) ↔ ∃ offset, v = .frame offset := by
  constructor
  · rintro ⟨env, frame, differ⟩
    cases v with
    | frame offset => exact ⟨offset, rfl⟩
    | plus second top => exact plain.elim
    | minus second top => exact plain.elim
    | _ => exact (differ rfl).elim
  · rintro ⟨offset, rfl⟩
    exact frame_needed (bits_pos size)

theorem needsCfa_iff {v : Value} (plain : Plain v) :
    NeedsCfa (fun env : Env size => (inC v).eval env) ↔ v = .cfa := by
  constructor
  · rintro ⟨env, cfa, differ⟩
    cases v with
    | cfa => rfl
    | plus second top => exact plain.elim
    | minus second top => exact plain.elim
    | _ => exact (differ rfl).elim
  · rintro rfl
    refine ⟨zeros, 1, fun same => ?_⟩
    have bit := congrArg (fun v : BitVec size.bits => v.toNat) same
    simp [inC, Value.eval, zeros, Nat.pos_iff_ne_zero.mp (bits_pos size)] at bit

private theorem run_compiled : run bytes = some (compiled (evaluate .four bytes []) false false) :=
  loop_compiled bytes false false (bytes.length + 1) [] (Nat.lt_succ_self _)

variable {value : Env size → BitVec size.bits} {isAddress : Bool}

/-- A result for a value is right if and only if the value and the flags suit. -/
private theorem represents_iff (v : Value) (executed : List Opcode) (kind : Bool) :
    Represents ⟨render v, kind, decide (.fbreg ∈ executed), decide (.callFrameCfa ∈ executed)⟩
      value isAddress ↔
      (∀ env, some (kind, (inC v).eval env) = some (isAddress, value env)) ∧ Suits v executed := by
  constructor
  · intro right
    obtain ⟨plain, same⟩ := (denotes_iff v value).mp right.denotes
    obtain rfl : (fun env => (inC v).eval env) = value := funext same
    exact ⟨fun env => by rw [show kind = isAddress from right.kind], plain,
      decide_eq_true_iff.symm.trans (right.frame.trans (needsFrame_iff plain)),
      decide_eq_true_iff.symm.trans (right.cfa.trans (needsCfa_iff plain))⟩
  · rintro ⟨same, suits⟩
    have equal : ∀ env, (inC v).eval env = value env :=
      fun env => (Prod.mk.inj (Option.some.inj (same env))).2
    obtain rfl : (fun env => (inC v).eval env) = value := funext equal
    exact ⟨(denotes_iff v _).mpr ⟨suits.plain, fun _ => rfl⟩,
      (Prod.mk.inj (Option.some.inj (same zeros))).1,
      decide_eq_true_iff.trans (suits.frame.trans (needsFrame_iff suits.plain).symm),
      decide_eq_true_iff.trans (suits.cfa.trans (needsCfa_iff suits.plain).symm)⟩

/-- A register needs neither the frame base nor the CFA. -/
private theorem represents_register (n : Nat) (executed : List Opcode) :
    Represents ⟨getRegText n, false, decide (.fbreg ∈ executed), decide (.callFrameCfa ∈ executed)⟩
      value isAddress ↔
      (∀ env, some (false, env.register n) = some (isAddress, value env)) ∧
        n < 2 ^ 63 ∧ .fbreg ∉ executed ∧ .callFrameCfa ∉ executed := by
  have noFrame : ¬ NeedsFrame (fun env : Env size => env.register n) := fun ⟨_, _, differ⟩ => differ rfl
  have noCfa : ¬ NeedsCfa (fun env : Env size => env.register n) := fun ⟨_, _, differ⟩ => differ rfl
  constructor
  · intro right
    obtain ⟨small, same⟩ := (denotes_register n value).mp right.denotes
    obtain rfl : (fun env : Env size => env.register n) = value := funext same
    exact ⟨fun env => by rw [show false = isAddress from right.kind], small,
      fun used => noFrame (right.frame.mp (decide_eq_true used)),
      fun used => noCfa (right.cfa.mp (decide_eq_true used))⟩
  · rintro ⟨same, small, frameUnused, cfaUnused⟩
    have equal : ∀ env : Env size, env.register n = value env :=
      fun env => (Prod.mk.inj (Option.some.inj (same env))).2
    obtain rfl : (fun env : Env size => env.register n) = value := funext equal
    exact ⟨(denotes_register n _).mpr ⟨small, fun _ => rfl⟩,
      (Prod.mk.inj (Option.some.inj (same zeros))).1,
      decide_eq_true_iff.trans (iff_of_false frameUnused noFrame),
      decide_eq_true_iff.trans (iff_of_false cfaUnused noCfa)⟩

/-- The result of a compiled evaluation is right if and only if it is sound and means the same. -/
private theorem compiled_represents (read : Evaluation) :
    (∃ result, compiled read false false = .ok result ∧ Represents result value isAddress) ↔
      (∀ env, (read.outcome.map inC).meaning env = some (isAddress, value env)) ∧ Sound read := by
  obtain ⟨outcome, executed⟩ := read
  by_cases fixed : executed.any isConst = true
  · have failed : compiled ⟨outcome, executed⟩ false false = .error .structError := if_pos fixed
    simp [failed, Sound, fixed]
  · have variable_size := Bool.eq_false_iff.mpr fixed
    cases outcome with
    | malformed reason =>
      have failed : compiled ⟨.malformed reason, executed⟩ false false = .error (reported reason) :=
        if_neg fixed
      simp only [failed, Outcome.map, Outcome.meaning, reduceCtorEq, false_and, exists_false,
        false_iff, not_and]
      exact fun none => (none zeros).elim
    | unimplemented =>
      have failed : compiled ⟨.unimplemented, executed⟩ false false = .error .notImplementedError :=
        if_neg fixed
      simp [failed, Sound]
    | location v =>
      have result : compiled ⟨.location v, executed⟩ false false =
          .ok ⟨render v, true, decide (.fbreg ∈ executed), decide (.callFrameCfa ∈ executed)⟩ :=
          if_neg fixed
      simp only [result, Except.ok.injEq, exists_eq_left', Sound, variable_size, true_and]
      exact represents_iff v executed true
    | inRegister n =>
      have result : compiled ⟨.inRegister n, executed⟩ false false =
          .ok ⟨getRegText n, false, decide (.fbreg ∈ executed),
            decide (.callFrameCfa ∈ executed)⟩ := if_neg fixed
      simp only [result, Except.ok.injEq, exists_eq_left', Sound, variable_size, true_and]
      exact represents_register n executed
    | isValue v =>
      have result : compiled ⟨.isValue v, executed⟩ false false =
          .ok ⟨render v, false, decide (.fbreg ∈ executed), decide (.callFrameCfa ∈ executed)⟩ :=
          if_neg fixed
      simp only [result, Except.ok.injEq, exists_eq_left', Sound, variable_size, true_and]
      exact represents_iff v executed false

/-- The machine raises `ValueError` for the malformed evaluations that are sound, and for no others. -/
private theorem compiled_valueError (read : Evaluation) :
    compiled read false false = .error .valueError ↔ (∃ reason, read.outcome = .malformed reason) ∧
    Sound read := by
  obtain ⟨outcome, executed⟩ := read
  by_cases fixed : executed.any isConst = true
  · have failed : compiled ⟨outcome, executed⟩ false false = .error .structError := if_pos fixed
    simp [failed, Sound, fixed]
  · have variable_size := Bool.eq_false_iff.mpr fixed
    cases outcome with
    | malformed reason =>
      have failed : compiled ⟨.malformed reason, executed⟩ false false = .error (reported reason) :=
        if_neg fixed
      cases reason <;> simp [failed, reported, Sound, variable_size]
    | _ => simp [compiled, variable_size]

/-- The machine compiles an expression as its meaning on the target demands exactly if, read with
addresses of four bytes, it comes to the same, executes no constant of a fixed size and picks no
entry that is missing, and the result is neither a sum nor a difference, is in the range of the
numbers of C, and is the frame base or the CFA whenever either has been pushed. -/
theorem compiles_iff (size : AddressSize) (bytes : Bytes) : Compiles size bytes ↔
    Compilable size bytes := by
  unfold Compiles Compilable
  rw [run_compiled]
  generalize evaluate .four bytes [] = read
  generalize (evaluate size bytes []).outcome = target
  cases target with
  | unimplemented => simp
  | malformed reason => simpa [Agrees] using compiled_valueError read
  | location v => simpa [Agrees, Outcome.meaning] using compiled_represents read
  | inRegister n => simpa [Agrees, Outcome.meaning] using compiled_represents read
  | isValue v => simpa [Agrees, Outcome.meaning] using compiled_represents read

/-! ## The size of an address -/

private theorem step_of_ne_addr {opcode : Opcode} (other : opcode ≠ .addr) (values : List Value)
    (size' : AddressSize) :
    Dwarf.step size' opcode bytes values = Dwarf.step size opcode bytes values := by
  unfold Dwarf.step
  split
  · exact absurd rfl other
  all_goals rfl

/-- Without an address in it an expression is read alike for any size. -/
theorem evaluate_of_no_addr (values : List Value) (size' : AddressSize)
    (unused : .addr ∉ (evaluate size bytes values).executed) :
    evaluate size' bytes values = evaluate size bytes values := by
  induction length_eq : bytes.length using Nat.strongRecOn generalizing bytes values with
  | ind count ih =>
    cases bytes with
    | nil => cases values <;> simp only [evaluate]
    | cons byte rest =>
      cases known : opcodes byte with
      | none => simp only [evaluate, known]
      | some name =>
        cases name with
        | none => simp only [evaluate, known]
        | some opcode =>
          have other : opcode ≠ .addr := by
            rintro rfl
            rw [evaluate_step known] at unused
            cases stepped : Dwarf.step size .addr rest values with
            | error reason => simp [stepped] at unused
            | ok effect => cases effect <;> simp [stepped, Evaluation.after] at unused
          rw [evaluate_step known, evaluate_step known, step_of_ne_addr rest other values size']
          cases stepped : Dwarf.step size opcode rest values with
          | error reason => rfl
          | ok effect =>
            cases effect with
            | inRegister n => rfl
            | isValue v => rfl
            | next later length =>
              rw [evaluate_step known, stepped] at unused
              have shorter : (rest.drop length).length < count := by
                simp only [List.length_drop, List.length_cons] at length_eq ⊢
                omega
              have later_unused : .addr ∉ (evaluate size (rest.drop length) later).executed :=
                fun used =>
                unused (List.mem_cons_of_mem _ used)
              simp only
              rw [ih _ shorter _ _ later_unused rfl]

/-- Numbers of 32 bits are the same in C. -/
private theorem eval_inC_four (v : Value) (env : Env .four) : (inC v).eval env = v.eval env := by
  cases v with
  | constant n =>
    rw [inC, Value.eval, Value.eval]
    split
    · apply BitVec.eq_of_toNat_eq
      rw [BitVec.toNat_ofInt, BitVec.toNat_ofInt, C.negated, AddressSize.bits]
      split <;> omega
    · rfl
  | _ => rfl

/-- For addresses of four bytes there is nothing to compare. -/
theorem compilable_four (bytes : Bytes) : Compilable .four bytes ↔
    (evaluate .four bytes []).outcome = .unimplemented ∨ Sound (evaluate .four bytes []) := by
  have agrees : Agrees .four (evaluate .four bytes []).outcome (evaluate .four bytes []).outcome := by
    cases (evaluate .four bytes []).outcome <;> simp [Agrees, Outcome.map, Outcome.meaning,
      eval_inC_four]
  rw [Compilable, and_iff_right agrees]

/-- A constant of one byte is not read, the difference of two literals is no C expression, and an
address of eight bytes is taken for one of four. -/
theorem constant_and_difference_fail : ¬ Compiles .four [0x08#8, 0x05#8] ∧
    ¬ Compiles .four [0x32#8, 0x31#8, 0x1c#8, 0x9f#8] ∧
    ¬ Compiles .eight [0x03#8, 0x00#8, 0x10#8, 0x40#8, 0x00#8, 0x00#8, 0x00#8, 0x00#8, 0x00#8] := by
  have constant : evaluate .four [0x08#8, 0x05#8] [] = ⟨.location (.constant 5), [.const .B]⟩ := by
    simp [evaluate, opcodes, Dwarf.step, Format.size, Format.decode, ofLittleEndian, Evaluation.after]
  have difference : evaluate .four [0x32#8, 0x31#8, 0x1c#8, 0x9f#8] [] =
      ⟨.isValue (.minus (.constant 2) (.constant 1)), [.lit 2, .lit 1, .minus, .stackValue]⟩ := by
    simp [evaluate, opcodes, Dwarf.step, Evaluation.after]
  have short : (evaluate .four [0x03#8, 0x00#8, 0x10#8, 0x40#8, 0x00#8, 0x00#8, 0x00#8, 0x00#8,
      0x00#8] []).outcome =
      .malformed .unknown := by
    simp [evaluate, opcodes, Dwarf.step, AddressSize.bytes, Evaluation.after]
  have whole : (evaluate .eight [0x03#8, 0x00#8, 0x10#8, 0x40#8, 0x00#8, 0x00#8, 0x00#8, 0x00#8,
      0x00#8] []).outcome =
      .location (.address 0x401000) := by
    simp [evaluate, opcodes, Dwarf.step, AddressSize.bytes, AddressSize.bits, Evaluation.after,
      ofLittleEndian]
  refine ⟨fun right => ?_, fun right => ?_, fun right => ?_⟩
  · unfold Compiles at right
    rw [constant] at right
    obtain ⟨result, ran, _⟩ := right
    cases ran
  · unfold Compiles at right
    rw [difference] at right
    obtain ⟨result, ran, represents⟩ := right
    rw [run_compiled, difference] at ran
    cases ran
    exact ((denotes_iff _ _).mp represents.denotes).1
  · unfold Compiles at right
    rw [whole] at right
    obtain ⟨result, ran, -⟩ := right
    rw [run_compiled, Option.some.injEq, compiled, short] at ran
    split at ran <;> cases ran

end Adbi.DwexprProofs
