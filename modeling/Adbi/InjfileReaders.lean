import Adbi.InjfileLookup

/-! What the server reads of an injectable file once `injfile_init` has accepted it:
the names that are compared, the walks of the `INJFILE_ITER_` macros, the code and
the lines. What reads outside of the file, or through a null pointer, has no result. -/
namespace Adbi.InjfileReaders
open Adbi.Lib Adbi.Injfile Adbi.InjfileLookup
open Adbi.Payload (CString)

/-- The file on a server whose addresses have `w` bits. The sum of the start of
the file and an offset wraps. -/
def onServer (w : Nat) (file : File) : File :=
  { file with pointer := fun part => (file.pointer part).map (· % 2 ^ w) }

/-! ## Names -/

/-- `strcmp(left, right) == 0`. -/
def strcmp : Bytes → Bytes → Option Bool
  | left :: lefts, right :: rights =>
    if left = right then if left = 0#8 then some true else strcmp lefts rights else some false
  | _, _ => none

/-- `strcmp(injfile->name, name) == 0`; either pointer may be null. -/
def nameIs (file : File) (name : Option Bytes) : Option Bool := do strcmp (← file.behind .name) (← name)

/-- The loop of `injectable_get_binding` and `injectable_get_library`, over the files of the tree. -/
def injectableGetByName (name : Option Bytes) : List File → Option (Option File)
  | [] => some none
  | injfile :: rest =>
    match nameIs injfile name with
    | none => none
    | some true => some (some injfile)
    | some false => injectableGetByName name rest

/-- What `injectable_load` comes to. -/
inductive Load where
  | malformed
  | invalidBinding
  | loaded (injfile : File)

/-- `injectable_load`, of a path that is not loaded. -/
def injectableLoad (w : Nat) (bindings : List File) (bytes : Bytes) : Option Load :=
  match (injfileInit bytes).map (onServer w) with
  | none => some .malformed
  | some injfile =>
    if injfile.flags &&& 1#16 = 0#16 then
      match injectableGetByName (injfile.behind .name) bindings with
      | none => none
      | some (some _) => some .invalidBinding
      | some none => some (.loaded injfile)
    else some (.loaded injfile)

/-! ## Symbols and tracepoints -/

/-- The macro `INJFILE_ITER_IMPORTS`: it takes the first symbol as it is. -/
def iterAllSymbols (bytes : Bytes) : Option (List (CString × Int)) := do
  let name ← cString bytes
  if bytes.length < 32 then none
  else (iterSymbols (bytes.drop 32)).map ((name, (field 32 bytes 28).toInt) :: ·)

def injfileIterAllImports (file : File) : Option (List (CString × Int)) :=
  match file.behind .imports with
  | none => some []
  | some bytes => iterAllSymbols bytes

/-- The inner loop of `injectable_get_dependencies`: the library that exports a symbol. -/
def exportingLibrary (name : CString) : List (Nat × File) → Option (Option Nat)
  | [] => some none
  | (id, inj) :: rest =>
    match injfileGetExport inj name with
    | none => none
    | some offset => if 0 < offset then some (some id) else exportingLibrary name rest

/-- What `injectable_get_dependencies` finds for each import. -/
def injectableGetDependencies (libraries : List (Nat × File)) (file : File) :
    Option (List (Option Nat)) := do
  (← injfileIterAllImports file).mapM fun symbol => exportingLibrary symbol.1 libraries

/-- The macro `INJFILE_ITER_TPOINTS`. -/
def iterAllTPoints (bytes : Bytes) : Option (List (Int × Int)) :=
  if bytes.length < 8 then none
  else (iterTPoints (bytes.drop 8)).map ((((field 32 bytes 0).toNat : Int),
    (field 32 bytes 4).toInt) :: ·)

def injfileIterAllTPoints (file : File) : Option (List (Int × Int)) :=
  match file.behind .tpoints with
  | none => some []
  | some bytes => iterAllTPoints bytes

/-! ## Code and lines -/

/-- The code that `inject` copies. -/
def injectedCode (file : File) : Option Bytes :=
  if file.codeSize = 0#32 then some []
  else
    match file.behind .code with
    | none => none
    | some bytes =>
      if bytes.length < file.codeSize.toNat then none else some (bytes.take file.codeSize.toNat)

/-- `injfile_get_string`, and the string that stands there. -/
def stringAt (w : Nat) (file : File) (offset : BitVec 32) : Option CString :=
  match file.pointer .strings with
  | none => some errorString
  | some place => cString (file.bytes.drop ((place + offset.toNat) % 2 ^ w))

/-- `injfile_addr2line`, with the string that it answers. -/
def addr2line (w : Nat) (file : File) (offset : Int) : Option (Option (CString × BitVec 32)) :=
  match file.behind .lines with
  | none => some none
  | some bytes => do
    match ← lineBefore offset none bytes with
    | none => return none
    | some li => return some (← stringAt w file li.file, li.line)

end Adbi.InjfileReaders
