import Adbi.Lib.Bytes

/-! The variables of a cache database, and what the reader of the cache says about
where they are visible. -/
namespace Adbi.Variables
open Adbi.Lib

/-! ## The tables -/

structure VariableRow where
  id : Int
  type : Int
  name : Option String
  global : Int
  loc : Option Int
  deriving DecidableEq

structure RangeRow where
  var : Int
  lo : Int
  hi : Int
  deriving DecidableEq

/-- The bounds may be null. The expression is kept as the bytes that its text encodes. -/
structure ExpressionRow where
  var : Int
  lo : Option Int
  hi : Option Int
  expr : Bytes
  deriving DecidableEq

structure Database where
  variableRows : List VariableRow
  variables2ranges : List RangeRow
  variables2expressions : List ExpressionRow
  primaryKey : (variableRows.map (·.id)).Nodup

/-! ## One variable -/

structure Variable where
  idx : Int
  typeId : Int
  name : Option String
  isGlobal : Bool
  locId : Option Int
  deriving DecidableEq

/-- `Variables.__getitem__`, and there `Variable.__init__`. -/
def Database.variable (db : Database) (idx : Int) : Option Variable :=
  (db.variableRows.find? fun row => row.id = idx).map fun row =>
  ⟨idx, row.type, row.name, row.global ≠ 0, row.loc⟩

def expressions (db : Database) (v : Variable) : List ExpressionRow :=
  db.variables2expressions.filter fun row => row.var = v.idx

/-- The query that the property `ranges` makes. -/
def queryRanges (db : Database) (v : Variable) : List (Int × Int) :=
  (db.variables2ranges.filter fun row => row.var = v.idx).map fun row => (row.lo, row.hi)

/-- `ranges`. The property makes its query and returns nothing. -/
def ranges (db : Database) (v : Variable) : Option (List (Int × Int)) :=
  let _ := queryRanges db v
  none

def visibleAt (db : Database) (v : Variable) (addr : Int) : Bool :=
  if v.isGlobal then true
  else
    match ranges db v with
    | none => true
    | some [] => true
    | some l => l.any fun range => range.1 ≤ addr && addr < range.2

/-- Nothing is below a bound that is null. -/
def isBelow (addr : Int) : Option Int → Bool
  | none => false
  | some high => addr < high

def getExpression (db : Database) (v : Variable) (addr : Int) : Option Bytes :=
  if !visibleAt db v addr then none
  else (expressions db v).findSome? fun row =>
    match row.lo with
    | none => some row.expr
    | some low => if low ≤ addr && isBelow addr row.hi then some row.expr else none

/-! ## All variables -/

def iterGlobals (db : Database) : List Variable :=
  ((db.variableRows.filter fun row => row.global = 1).map (·.id)).filterMap db.variable

/-- `iter_locals`. A variable comes once for each of its ranges that holds the address. -/
def iterLocals (db : Database) (addr : Int) : List Variable :=
  ((db.variables2ranges.filter fun row =>
      row.lo ≤ addr && addr < row.hi &&
        ((db.variableRows.filter fun other => other.global = 0).map (·.id)).contains row.var).map
          (·.var)).filterMap db.variable

def iterVariables (db : Database) (addr : Int) : List Variable := iterLocals db addr ++ iterGlobals db

def lookup (db : Database) (addr : Int) (name : String) : Option Variable :=
  (iterVariables db addr).find? fun var => var.name = some name

end Adbi.Variables
