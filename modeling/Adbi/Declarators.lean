import Adbi.Lib.CDecl

/-! How the reader of a cache writes the definition of a variable or of a member, after
`cachereader/datatype`: `define_var` puts the declarator together from the outermost type
inwards. The lines of the body of an anonymous type are taken as they are. -/
namespace Adbi.Declarators
open Adbi.Lib Adbi.Lib.CDecl

abbrev Text := List Char

/-! ## `C.py` -/

def keywords : List Text :=
  ["auto", "break", "case", "char", "const", "continue", "default", "do", "double", "else", "enum",
    "extern", "float", "for", "goto",
    "if", "int", "long", "register", "return", "short", "signed", "sizeof", "static", "struct",
    "switch", "typedef", "union",
    "unsigned", "void", "volatile", "while"].map String.toList

def idFirst (c : Char) : Bool := c == '_' || c.isAlpha

def idOther (c : Char) : Bool := idFirst c || c.isDigit

/-- `is_identifier`. -/
def isIdentifier : Text → Bool
  | [] => false
  | c :: rest => !keywords.contains (c :: rest) && idFirst c && rest.all idOther

def indent : Text := "    ".toList

/-! ## Types without an inner type -/

inductive CompoundKind where
  | struct | cls | union
  deriving DecidableEq

/-- `COMPOUND_PREFIX`. -/
def CompoundKind.pre : CompoundKind → Text
  | struct => "struct".toList
  | cls => "struct /* class */".toList
  | union => "union".toList

/-- The types that `create` makes and that are not nested, with the name (empty, if there is
none), and with the lines that define an anonymous type. -/
inductive Plain where
  | void
  | int (signed : Bool) (byteSize : Nat)
  | boolean (byteSize : Nat)
  | char (signed : Bool) (byteSize : Nat)
  | float (byteSize : Nat)
  | compound (kind : CompoundKind) (tid : Nat) (name : Text) (members : List Text)
  | enum (tid : Nat) (name : Text) (enumerators : List Text)
  | typedef (tid : Nat) (name : Text)
  | unsupported

/-- `'__adbi_anon_type_%06x' % self.tid`. -/
def anonymousName (tid : Nat) : Text :=
  let digits := Nat.toDigits 16 tid
  "__adbi_anon_type_".toList ++ List.replicate (6 - digits.length) '0' ++ digits

def signedness (signed : Bool) : Text := if signed then "signed ".toList else "unsigned ".toList

/-- `IntType.get_codename`. -/
def intCodename : Nat → Option Text
  | 1 => some "char".toList
  | 2 => some "short".toList
  | 4 => some "int".toList
  | 8 => some "long long int".toList
  | 16 => some "__int128".toList
  | _ => none

/-- `FloatType.get_codename`. -/
def floatCodename : Nat → Option Text
  | 2 => some "__fp16".toList
  | 4 => some "__adbi_fp32_t".toList
  | 8 => some "__adbi_fp64_t".toList
  | 16 => some "__adbi_fp128_t".toList
  | _ => none

namespace Plain

/-- `codename`; a size without a type is not implemented. -/
def codename : Plain → Option Text
  | void => some "void".toList
  | int signed size => (intCodename size).map (signedness signed ++ ·)
  | boolean size => intCodename size
  | char signed size => if size = 1 then some (signedness signed ++ "char".toList) else none
  | float size => floatCodename size
  | compound kind tid name _ => some (if name = [] then anonymousName tid else kind.pre ++ ' ' :: name)
  | enum tid name _ => some (if name = [] then anonymousName tid else name)
  | typedef tid name => some (if name = [] then anonymousName tid else name)
  | unsupported => some "void /* unsupported */".toList

/-- `_define_var_type`. -/
def defineVarType (p : Plain) : Option (List Text) :=
  match p with
  | compound kind _ name members =>
    if name = [] then
      some ((kind.pre ++ " __attribute__ ((__packed__)) \x7b".toList) :: members.map
        (indent ++ ·) ++ ["\x7d".toList])
    else p.codename.map ([·])
  | enum _ name enumerators =>
    if name = [] then some ("enum \x7b".toList :: enumerators.map (indent ++ ·) ++ ["\x7d".toList])
    else p.codename.map fun codename => ["enum ".toList ++ codename]
  | _ => p.codename.map ([·])

end Plain

/-! ## Nested types -/

/-- `NestedType`; what has no inner type in the cache has `VoidType`. -/
inductive DataType where
  | plain (p : Plain)
  | array (dimensions : List (Option Nat)) (inner : DataType)
  | pointer (inner : DataType)
  | reference (inner : DataType)
  | rightReference (inner : DataType)
  | const (inner : DataType)
  | volatile (inner : DataType)
  | restrict (inner : DataType)

/-- Whether the type is an array by its `kind`. -/
def DataType.isArray : DataType → Bool
  | array .. => true
  | _ => false

namespace DataType

/-- `innermost_type`. -/
def innermost : DataType → Plain
  | plain p => p
  | array _ inner | pointer inner | reference inner | rightReference inner | const inner
  | volatile inner | restrict inner => inner.innermost

/-- `_define_var_type`. -/
def defineVarType : DataType → Option (List Text)
  | plain p => p.defineVarType
  | t => t.innermost.codename.map ([·])

def dimensionText : Option Nat → Text
  | some i => '[' :: Nat.toDigits 10 i ++ [']']
  | none => "[]".toList

/-- `_define_var_name`. -/
def defineVarName : DataType → Text → Text
  | plain _, name => name
  | array dimensions inner, name =>
    let name := name ++ dimensions.flatMap dimensionText
    let name := if inner.isArray ∧ ¬(array dimensions inner).isArray then '(' :: name ++ [')'] else name
    inner.defineVarName name
  | pointer inner, name => inner.defineVarName ("* ".toList ++ name)
  | reference inner, name => inner.defineVarName ("* /* ref */ ".toList ++ name)
  | rightReference inner, name => inner.defineVarName ("* /* rref */ ".toList ++ name)
  | const inner, name => inner.defineVarName ("/* const */ ".toList ++ name)
  | volatile inner, name => inner.defineVarName ("volatile ".toList ++ name)
  | restrict inner, name => inner.defineVarName ("__restrict__ ".toList ++ name)

/-- `define_var`, of a variable that may have no name. -/
def defineVar (t : DataType) (name : Option Text) : Option (List Text) :=
  t.defineVarType.map fun spec =>
    match name with
    | none => spec.dropLast ++ [spec.getLastD [] ++ [';']]
    | some name => spec.dropLast ++ [spec.getLastD [] ++ ' ' :: t.defineVarName name ++ [';']]

example : (volatile (array [some 2] (pointer (plain (.int false 4))))).defineVar (some ['x']) =
    some ["unsigned int * volatile x[2];".toList] := rfl

end DataType

end Adbi.Declarators
