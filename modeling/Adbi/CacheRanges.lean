import Adbi.Lib.Bytes

/-! How the cache builder turns the addresses of the debugging information into offsets in
the file: for variables, for functions and for the call frames. What the DWARF reader
yields for a DIE is taken as it is, and the text of an expression is kept as the bytes
that it encodes. -/
namespace Adbi.CacheRanges
open Adbi.Lib

/-- What the translation reads of the header of a section. -/
structure Section where
  addr : Nat
  offset : Nat
  size : Nat
  flags : Nat
  deriving DecidableEq

/-- `SH_FLAGS.SHF_ALLOC`. -/
def shfAlloc : Nat := 2

def Section.allocated (s : Section) : Bool := s.flags &&& shfAlloc ≠ 0

/-- Both ends count. -/
def Section.touches (s : Section) (addr : Nat) : Bool := s.addr ≤ addr && addr ≤ s.addr + s.size

/-- `DebugInfo.addr2fo`; nothing stands for a `ValueError`. -/
def addr2fo (sections : List Section) (addr : Nat) : Option Nat :=
  ((sections.filter fun s => s.allocated).find? fun s => s.touches addr).map fun s =>
  s.offset + (addr - s.addr)

/-- Both ends of a range. -/
def translate (sections : List Section) (range : Nat × Nat) : Option (Nat × Nat) := do
  let low ← addr2fo sections range.1
  let high ← addr2fo sections range.2
  pure (low, high)

/-- What `iter_expressions` yields. One without bounds is valid everywhere. -/
structure Expression where
  bounds : Option (Nat × Nat)
  expr : Bytes
  deriving DecidableEq

/-- The expressions with their bounds translated, less those where that fails. -/
def translateExpressions (sections : List Section) (expressions : List Expression) : List Expression :=
  expressions.filterMap fun e =>
    match e.bounds with
    | none => some e
    | some range => (translate sections range).map fun range => ⟨some range, e.expr⟩

/-! ## Variables -/

structure VariableDie where
  offset : Nat
  name : Option String
  /-- The compressed id of the resolved type. -/
  typeId : Option Nat
  external : Bool
  inSubprogram : Bool
  ranges : List (Nat × Nat)
  expressions : List Expression

structure Variable where
  vid : Nat
  name : Option String
  typeId : Nat
  isGlobal : Bool
  ranges : List (Nat × Nat)
  expressions : List Expression
  deriving DecidableEq

def iterVarRanges (sections : List Section) (ranges : List (Nat × Nat)) : List (Nat × Nat) :=
  ranges.filterMap (translate sections)

def iterVarExpressions : List Section → List Expression → List Expression := translateExpressions

/-- `Variable.__init__`; nothing when it raises a `ValueError`. A variable that was optimized
out has no ranges. -/
def variableInit (sections : List Section) (vid : Nat) (die : VariableDie) : Option Variable :=
  match die.typeId with
  | none => none
  | some typeId =>
    if die.name.isNone && !die.inSubprogram then none
    else
      let expressions := iterVarExpressions sections die.expressions
      let ranges := if expressions = [] then [] else iterVarRanges sections die.ranges
      some ⟨vid, die.name, typeId, die.external, ranges, expressions⟩

/-- `offset2var` of `Variables.__init__`. A variable that raises has its number all the same. -/
def variablesInit (sections : List Section) : Nat → List VariableDie → List (Nat × Variable)
  | _, [] => []
  | vid, die :: rest =>
    match variableInit sections vid die with
    | none => variablesInit sections (vid + 1) rest
    | some v => (die.offset, v) :: variablesInit sections (vid + 1) rest

/-- `get_by_DIE`; nothing stands for a `KeyError`. -/
def getByDIE (offset2var : List (Nat × Variable)) (offset : Nat) : Option Variable :=
  (offset2var.find? fun e => e.1 = offset).map (·.2)

/-! ## Call frames -/

/-- How the build ends when an exception is not caught. -/
inductive Abort where
  | valueError | attributeError | assertionError
  deriving DecidableEq

/-- `CFARule`, of which one part is given. -/
inductive CfaRule where
  | expr (bytes : Bytes)
  | register (reg : Nat) (offset : Int)
  | missing

structure Fde where
  initialLocation : Nat
  addressRange : Nat
  /-- The rows of the decoded table: `pc` and `cfa`. -/
  table : List (Nat × CfaRule)

def Fde.high (fde : Fde) : Nat := fde.initialLocation + fde.addressRange

structure CallFrameInfoEntry where
  low : Nat
  high : Nat
  expr : Bytes
  deriving DecidableEq

/-- `LEB.encode`. -/
def lebEncode (value : Nat) : Bytes :=
  if value < 128 then [BitVec.ofNat 8 value]
    else BitVec.ofNat 8 (value % 128 + 128) :: lebEncode (value / 128)

/-- `SLEB.encode`. -/
def slebEncode (value : Int) : Bytes :=
  let seven := (value % 128).toNat
  if (value / 128 = 0 ∧ seven < 64) ∨ (value / 128 = -1 ∧ 64 ≤ seven) then [BitVec.ofNat 8 seven]
  else BitVec.ofNat 8 (seven + 128) :: slebEncode (value / 128)
termination_by value.natAbs
decreasing_by omega

/-- The expression of a rule; for a register it is `DW_OP_bregx`. -/
def cfaExpr : CfaRule → Except Abort Bytes
  | .expr bytes => .ok bytes
  | .register reg offset => .ok (0x92#8 :: (lebEncode reg ++ slebEncode offset))
  | .missing => .error .assertionError

/-- Where a row ends: where the next one starts, the last one with the FDE. -/
def nextPc (rest : List (Nat × CfaRule)) (high : Nat) : Nat :=
  match rest with
  | [] => high
  | (pc, _) :: _ => pc

/-- The entries for the rows of an FDE that ends at `high`. -/
def fdeEntries (sections : List Section) (high : Nat) : List (Nat × CfaRule) →
    Except Abort (List CallFrameInfoEntry)
  | [] => .ok []
  | (pc, rule) :: rest =>
    match translate sections (pc, nextPc rest high) with
    | none => fdeEntries sections high rest
    | some (entryLow, entryHigh) => do
      let expr ← cfaExpr rule
      let later ← fdeEntries sections high rest
      pure (⟨entryLow, entryHigh, expr⟩ :: later)

/-- `iter_entries`, for the FDEs among the entries. -/
def iterEntries (sections : List Section) : List Fde → Except Abort (List CallFrameInfoEntry)
  | [] => .ok []
  | fde :: rest => do
    let entries ← fdeEntries sections fde.high fde.table
    let later ← iterEntries sections rest
    pure (entries ++ later)

/-! ## Functions -/

structure FunctionDie where
  name : Option String
  lowPc : Option Nat
  /-- Whether the form starts with `DW_FORM_data`, and the value. -/
  highPc : Option (Bool × Nat)
  frameBase : List Expression
  /-- The offsets of the formal parameters. -/
  params : List Nat

structure Function where
  id : Nat
  name : String
  low : Nat
  high : Nat
  framepointer : List Expression
  params : List Variable
  deriving DecidableEq

def iterFp : List Section → List Expression → List Expression := translateExpressions

/-- `if not name`. -/
def nameOf (name : Option String) : String :=
  match name with
  | none => "<<unnamed function>>"
  | some name => if name = "" then "<<unnamed function>>" else name

/-- The body of the loop of `iter_functions`; nothing when the DIE is passed over. -/
def functionOf (sections : List Section) (offset2var : List (Nat × Variable)) (id : Nat)
    (die : FunctionDie) :
    Except Abort (Option Function) :=
  match die.lowPc with
  | none => .ok none
  | some low =>
    if low = 0 then .ok none
    else
      match die.highPc with
      | none => .error .attributeError
      | some (data, high) =>
        let high := if data then high + low else high
        match die.params.mapM (getByDIE offset2var) with
        | none => .ok none
        | some params =>
          match translate sections (low, high) with
          | none => .error .valueError
          | some (lo, hi) =>
            .ok (some ⟨id, nameOf die.name, lo, hi, iterFp sections die.frameBase, params⟩)

/-- `iter_functions`. -/
def iterFunctions (sections : List Section) (offset2var : List (Nat × Variable)) :
    Nat → List FunctionDie → Except Abort (List Function)
  | _, [] => .ok []
  | id, die :: rest => do
    match ← functionOf sections offset2var id die with
    | none => iterFunctions sections offset2var id rest
    | some f => do
      let later ← iterFunctions sections offset2var (id + 1) rest
      pure (f :: later)

end Adbi.CacheRanges
