import Adbi.Lib.OrderedTree
import Adbi.Payload

/-! The symbols of injectables and how imports are resolved, after
`injectable/injectable.c` and `injectable/injfile.c`. The libraries are looked
at in the order of their ids, and the dependencies of an injectable are
collected in a tree that refuses a library it already has. -/
namespace Adbi.Linking
open Adbi.Lib
open Adbi.Payload (CString)

/-- The address of an `injectable_t` in the server, which is also its key in `process->injections`. -/
abbrev Pointer := Nat

/-- `injfile_symbol_t`. -/
structure Symbol where
  name : CString
  offset : Int
  deriving DecidableEq

/-- The parts of `injfile_t` that linking uses. Each list is what the server
walks through: the symbols up to the first one without a name. -/
structure Injfile where
  name : CString
  library : Bool
  adbi : List Symbol
  imports : List Symbol
  exports : List Symbol
  tpoints : List Nat

/-- The trees of `injectable.c`, by id, and the files of the injectables.
`injectable_create` puts a library into one of the trees and any other
injectable into the other one. -/
structure Loaded where
  libraries : OrderedTree Nat Pointer
  bindings : OrderedTree Nat Pointer
  injfile : Pointer → Injfile
  libraries_library : ∀ node ∈ libraries.entries, (injfile node.2).library = true
  bindings_bound : ∀ node ∈ bindings.entries, (injfile node.2).library = false

/-- What stops the server: an injection that is not there, a failed assertion, a
recursion that never ends. -/
inductive Fault where
  | missing | assertion | unbounded
  deriving DecidableEq

/-- `injfile_get_symbol`; names are compared up to 28 characters. -/
def injfileGetSymbol (symbols : List Symbol) (name : CString) : Int :=
  ((symbols.find? fun symbol => name.take 28 = symbol.name.take 28).map fun symbol =>
    symbol.offset).getD (-1)

/-- `injfile_get_export`. -/
def injfileGetExport (file : Injfile) (name : CString) : Int := injfileGetSymbol file.exports name

/-- `injfile_get_adbi`. -/
def injfileGetAdbi (file : Injfile) (name : CString) : Int := injfileGetSymbol file.adbi name

section
variable (s : Loaded)

/-- The library that the inner loop of `injectable_get_dependencies` stops at, with its id. -/
def findExporter (name : CString) : Option (Nat × Pointer) :=
  s.libraries.entries.find? fun node => 0 < injfileGetExport (s.injfile node.2) name

/-- The dependencies found so far and the imports that the callback was called with. -/
abbrev Resolution := OrderedTree Nat Pointer × List Symbol

/-- One round of the outer loop. -/
def resolveImport (res : Resolution) (symbol : Symbol) : Except Fault Resolution :=
  match findExporter s symbol.name with
  | some inj =>
    match res.1.tryInsert inj.1 inj.2 with
    | some deps => .ok (deps, res.2)
    | none => .error .assertion
  | none => .ok (res.1, res.2 ++ [symbol])

/-- `injectable_get_dependencies`. -/
def injectableGetDependencies (injectable : Pointer) : Except Fault Resolution :=
  (s.injfile injectable).imports.foldlM (resolveImport s) (OrderedTree.empty, [])

/-- The calls that `injectable_iter_dependencies` makes, in order: to the
callback, and to the one for unresolved imports. -/
structure Calls where
  dependencies : List Pointer
  unresolved : List (Pointer × Symbol)

/-- One round of the loop of `injectable_iter_dependencies`, with what the recursion does. -/
def iterDependency (recursion : Pointer → Except Fault Calls) (calls : Calls) (node : Nat × Pointer) :
    Except Fault Calls := do
  let below ← recursion node.2
  return ⟨calls.dependencies ++ below.dependencies ++ [node.2], calls.unresolved ++ below.unresolved⟩

/-- The recursion of `injectable_iter_dependencies`. -/
def iterDependencies : Nat → Pointer → Except Fault Calls
  | 0, _ => .error .unbounded
  | depth + 1, injectable => do
    let (tree, unresolved) ← injectableGetDependencies s injectable
    tree.entries.foldlM (iterDependency (iterDependencies depth)) ⟨[],
      unresolved.map (Prod.mk injectable)⟩

/-- `injectable_iter_dependencies`. Along a path of imports that is longer than
the list of libraries some library comes twice, and then the recursion never ends. -/
def injectableIterDependencies (injectable : Pointer) : Except Fault Calls :=
  iterDependencies s (s.libraries.entries.length + 1) injectable

/-- `injectable_get_binding`. -/
def injectableGetBinding (path : CString) : Option Pointer :=
  (s.bindings.entries.find? fun node => (s.injfile node.2).name = path).map fun node => node.2

end

/-! ## What resolving is for -/

/-- A library exports a symbol when it has a place for it in its code. -/
def Exports (file : Injfile) (name : CString) : Prop := 0 ≤ injfileGetExport file name

instance : Decidable (Exports file name) := inferInstanceAs (Decidable (0 ≤ _))

/-- The library with the lowest id among those that export a symbol. -/
def lowestExporter (s : Loaded) (name : CString) : Option (Nat × Pointer) :=
  s.libraries.entries.find? fun node => Exports (s.injfile node.2) name

/-- The search comes to its end with the libraries chosen for the imports, one
for each import that has an exporter, and reports the other imports. -/
def ResolvesExactly (s : Loaded) (injectable : Pointer) : Prop :=
  ∃ deps unresolved, injectableGetDependencies s injectable = .ok (deps, unresolved) ∧
    (∀ node, node ∈ deps.entries ↔
      ∃ symbol ∈ (s.injfile injectable).imports, lowestExporter s symbol.name = some node) ∧
    unresolved = (s.injfile injectable).imports.filter fun symbol =>
    (lowestExporter s symbol.name).isNone

end Adbi.Linking
