import Adbi.Lib.Runs

/-! Injections of one process and their reference counts, after
`injection/injection.c` and the dependency traversal of
`injectable/injectable.c`. Loading a handler counts the libraries it needs,
removing it gives the counts back; both go through the same traversal. -/
namespace Adbi.Injection

/-- The unique id of an injectable. -/
abbrev Iid := Nat

/-- The import graph of the loaded injectables. `deps` is what
`injectable_get_dependencies` returns: for each import the library that exports
it, as a tree ordered by id. The graph is acyclic, which `rank` shows. -/
structure ImportGraph where
  deps : Iid → List Iid
  rank : Iid → Nat
  library : Iid → Bool
  /-- The injectable named `#adbi`. -/
  adbi : Iid
  /-- No injectable imports, in any number of steps, from itself. -/
  descends : ∀ x, ∀ d ∈ deps x, rank d < rank x
  /-- Dependencies are looked for among the libraries only. -/
  deps_library : ∀ x, ∀ d ∈ deps x, library d = true
  adbi_library : library adbi = true
  /-- `inj/adbi` declares exports and no import. -/
  adbi_imports_nothing : deps adbi = []

/-- The callbacks made by `injectable_iter_dependencies`, in order: for each
direct dependency first its own traversal, then the dependency itself. A
library is visited once for every import path that leads to it. -/
def iterDependencies (g : ImportGraph) : Nat → Iid → List Iid
  | 0, _ => []
  | depth + 1, x => (g.deps x).flatMap fun d => iterDependencies g depth d ++ [d]

/-- `injectable_iter_dependencies`: no import path is longer than the rank. -/
def injectableIterDependencies (g : ImportGraph) (x : Iid) : List Iid := iterDependencies g (g.rank x) x

/-- What the server keeps about a process: `process->injections` with the
reference count of each injection, and for each instrumented segment the
injection it holds a reference to. -/
structure Process where
  injections : Iid → Option Nat
  segments : List Iid

/-- The ways a traversal can go wrong: a dependency with no injection (a null
dereference), a count decremented below zero, a failed assertion. -/
inductive Fault where
  | missing | underflow | assertion
  deriving DecidableEq, Repr

namespace Process

/-- `injection->references = n`, for a new or an existing injection. -/
def set (p : Process) (x : Iid) (references : Option Nat) : Process :=
  { p with injections := Function.update p.injections x references }

end Process

/-- `inject`, when the inferior does as it is told: a new injection with no references. -/
def inject (g : ImportGraph) (p : Process) (x : Iid) : Except Fault Process :=
  if x = g.adbi then .error .assertion else .ok (p.set x (some 0))

/-- The callback of `inject_dependencies`. -/
def dependency (g : ImportGraph) (p : Process) (x : Iid) : Except Fault Process :=
  match p.injections x with
  | some references => .ok (p.set x (some (references + 1)))
  | none => do
    let p ← inject g p x
    .ok (p.set x (some 1))

/-- `inject_dependencies`, when every import is resolved. -/
def injectDependencies (g : ImportGraph) (p : Process) (x : Iid) : Except Fault Process :=
  (injectableIterDependencies g x).foldlM (dependency g) p

/-- `injections_init` for a segment bound to the handler `x`. -/
def injectionsInit (g : ImportGraph) (p : Process) (x : Iid) : Except Fault Process := do
  let p ← match p.injections x with
    | some _ => .ok p
    | none => do
      let p ← injectDependencies g p x
      inject g p x
  match p.injections x with
  | none => .error .missing
  | some references => .ok { p.set x (some (references + 1)) with segments := x :: p.segments }

/-- `dep_uninject`, the callback of `uninject_dependencies`. -/
def depUninject (g : ImportGraph) (detach : Process → Iid → Except Fault Process)
    (p : Process) (x : Iid) : Except Fault Process :=
  match p.injections x with
  | none => .error .missing
  | some 0 => .error .underflow
  | some (references + 1) =>
    let p := p.set x (some references)
    if references = 0 ∧ x ≠ g.adbi then detach p x else .ok p

/-- `uninject`: the injection is gone. -/
def uninject (g : ImportGraph) (p : Process) (x : Iid) : Except Fault Process :=
  if x = g.adbi ∨ p.injections x ≠ some 0 then .error .assertion else .ok (p.set x none)

/-- `injection_detach_single`, which calls itself through
`uninject_dependencies` for every dependency whose count drops to zero. -/
def injectionDetachSingle (g : ImportGraph) : Nat → Process → Iid → Except Fault Process
  | 0, _, _ => .error .assertion
  | depth + 1, p, x => do
    if x = g.adbi ∨ p.injections x ≠ some 0 then .error .assertion
    else do
      let p ← (injectableIterDependencies g x).foldlM (depUninject g (injectionDetachSingle g depth)) p
      uninject g p x

/-- `process_detach_injectable`: every segment gives back its reference
(`segment_detach_injectable`), then the injection is removed. A dependency has
a smaller rank than the injectable that needs it, so the rank bounds the
recursion. -/
def processDetachInjectable (g : ImportGraph) (p : Process) (x : Iid) : Except Fault Process :=
  match p.injections x with
  | none => .ok p
  | some references =>
    injectionDetachSingle g (g.rank x + 1)
      { (p.set x (some (references - p.segments.count x))) with
        segments := p.segments.filter (· ≠ x) } x

/-- An injectable with tracepoint handlers: it is bound to a file and is no library. -/
structure Handler (g : ImportGraph) where
  id : Iid
  bound : g.library id = false

/-- The two ways the injections of a running process change. -/
inductive Op (g : ImportGraph) where
  /-- A segment is instrumented by a handler. -/
  | instrument (handler : Handler g)
  /-- A handler is removed from the process. -/
  | detach (handler : Handler g)

def step (g : ImportGraph) (p : Process) : Op g → Except Fault Process
  | .instrument handler => injectionsInit g p handler.id
  | .detach handler => processDetachInjectable g p handler.id

/-- Right after `inject_adbi`: one injection, with the reference that protects
it from being unloaded. -/
def attached (g : ImportGraph) : Process where
  injections := Function.update (fun _ => none) g.adbi (some 1)
  segments := []

end Adbi.Injection
