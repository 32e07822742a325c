import Adbi.Linking

/-! Putting handlers and their dependencies into a process, after
`injection/injection.c`, with an inferior that may fail at every point: no
memory, a failed write of the code or of a link, an initialization routine that
does not return. -/
namespace Adbi.Instrument
open Adbi.Lib Adbi.Linking
open Adbi.Payload (CString)

/-- `injection_t`; the injectable is its key in the tree. -/
structure Injection where
  address : Nat
  references : Nat
  deriving DecidableEq

/-- `process->injections`, and the counts `injectable->references`. -/
structure Process where
  injections : OrderedTree Pointer Injection
  counts : Pointer → Nat

/-- `segment_t`, as far as instrumenting it goes. -/
structure Segment where
  filename : Option CString
  start : Nat
  stop : Nat
  offset : Nat
  executable : Bool
  writeable : Bool
  injection : Option Pointer

/-- How the inferior answers while an injectable is put into it. -/
structure Attempt where
  /-- The address that `fncall_allocate` returns. -/
  allocated : Option Nat
  /-- Whether `mem_write` writes the whole code. -/
  loaded : Bool
  /-- Whether the link at an address can be written. -/
  linked : Nat → Bool
  /-- Whether the initialization routine returns. -/
  initialized : Bool

/-- The server and what it knows of the target: `#adbi`, `process->mode32` and
the number of addresses. No injectable is tried twice in one call. -/
structure Env extends Loaded where
  adbi : Pointer
  mode32 : Bool
  modulus : Nat
  answers : Pointer → Attempt

/-- `injection_relocate_address`. -/
def injectionRelocateAddress (address : Nat) (offset : Int) : Nat :=
  if offset < 0 then 0 else address + offset.toNat

/-- The symbol `entry`. -/
def entrySymbol : CString := [0x65#8, 0x6e#8, 0x74#8, 0x72#8, 0x79#8]

namespace Process

/-- `++injection->references`. -/
def reference (p : Process) (x : Pointer) : Process :=
  { p with injections := p.injections.adjust x fun injection =>
      { injection with references := injection.references + 1 } }

end Process

/-- `injection_create`. -/
def injectionCreate (p : Process) (x : Pointer) (address : Nat) : Except Fault Process :=
  match p.injections.tryInsert x ⟨address, 0⟩ with
  | some injections => .ok ⟨injections, Function.update p.counts x (p.counts x + 1)⟩
  | none => .error .assertion

/-- `injection_free`. -/
def injectionFree (p : Process) (x : Pointer) : Except Fault Process :=
  match p.injections.get x with
  | some _ => .ok ⟨p.injections.remove x, Function.update p.counts x (p.counts x - 1)⟩
  | none => .error .assertion

section
variable (env : Env)

/-- `injection_get_exported_symbol_address`. -/
def injectionGetExportedSymbolAddress (node : Pointer × Injection) (symbol : CString) : Nat :=
  injectionRelocateAddress node.2.address (injfileGetExport (env.injfile node.1) symbol)

/-- The injection that the loop of `injection_find_export` stops at. -/
def injectionFindExporter (p : Process) (symbol : CString) : Option (Pointer × Injection) :=
  p.injections.entries.find? fun node => injectionGetExportedSymbolAddress env node symbol ≠ 0

/-- `injection_find_export`. -/
def injectionFindExport (p : Process) (symbol : CString) : Nat :=
  match injectionFindExporter env p symbol with
  | some node => injectionGetExportedSymbolAddress env node symbol
  | none => 0

/-- Where the link of an import is written. -/
def linkSlot (importAddr : Nat) : Nat := importAddr + if env.mode32 then 4 else 8

/-- One import of `injection_dlink`. -/
def linkImport (p : Process) (x : Pointer) (address : Nat) (success : Bool) (symbol : Symbol) :
    Except Fault Bool :=
  if injectionFindExport env p symbol.name = 0 then .ok false
  else
    let importAddr := injectionRelocateAddress address symbol.offset
    if importAddr = 0 then .error .assertion
    else .ok (success && (env.answers x).linked (linkSlot env importAddr))

/-- `injection_dlink`. -/
def injectionDlink (p : Process) (x : Pointer) (address : Nat) : Except Fault Bool :=
  (env.injfile x).imports.foldlM (linkImport env p x address) true

/-- `injection_init`. -/
def injectionInit (x : Pointer) (address : Nat) : Bool :=
  injectionRelocateAddress address (injfileGetAdbi (env.injfile x) entrySymbol) = 0 ||
    (env.answers x).initialized

/-- `uninject`. -/
def uninject (p : Process) (x : Pointer) : Except Fault Process :=
  if x = env.adbi then .error .assertion
  else
    match p.injections.get x with
    | none => .error .missing
    | some injection => if injection.references = 0 then injectionFree p x else .error .assertion

/-- `inject`; the second part says whether there is an injection. -/
def inject (p : Process) (x : Pointer) : Except Fault (Process × Bool) :=
  if x = env.adbi then .error .assertion
  else
    match (env.answers x).allocated with
    | none => .ok (p, false)
    | some address =>
      if !(env.answers x).loaded then .ok (p, false)
      else do
        let created ← injectionCreate p x address
        let linked ← injectionDlink env created x address
        if linked && injectionInit env x address then return (created, true)
        else return (← uninject env created x, false)

/-- The callback of `inject_dependencies`. -/
def dependency (p : Process) (x : Pointer) : Except Fault Process :=
  match p.injections.get x with
  | some _ => .ok (p.reference x)
  | none => do
    let (p, injected) ← inject env p x
    if injected then .ok (p.reference x) else .error .missing

/-- `inject_dependencies`. -/
def injectDependencies (p : Process) (x : Pointer) : Except Fault (Process × Bool) := do
  let calls ← injectableIterDependencies env.toLoaded x
  if calls.unresolved.isEmpty then return (← calls.dependencies.foldlM (dependency env) p, true)
  else return (p, false)

/-- `segment_fo2addr`. -/
def segmentFo2addr (segment : Segment) (offset : Nat) : Nat :=
  let result := (segment.start + offset + (env.modulus - segment.offset)) % env.modulus
  if result < segment.start ∨ segment.stop ≤ result then 0 else result

/-- `tracepoints_any_defined`. -/
def tracepointsAnyDefined (segment : Segment) (x : Pointer) : Bool :=
  (env.injfile x).tpoints.any fun address => segmentFo2addr env segment address ≠ 0

/-- The handlers for a segment, by the tests that `injections_init` makes on it. -/
def handlerFor (segment : Segment) : Option Pointer := do
  let path ← segment.filename
  if !segment.executable || segment.writeable then none
  else (injectableGetBinding env.toLoaded path).filter (tracepointsAnyDefined env segment)

/-- `injections_init`. -/
def injectionsInit (p : Process) (segment : Segment) : Except Fault (Process × Segment) :=
  match segment.injection with
  | some _ =>
    match segment.filename.bind (injectableGetBinding env.toLoaded) with
    | none => .error .assertion
    | some x => if (p.injections.get x).isSome then .ok (p, segment) else .error .assertion
  | none =>
    match handlerFor env segment with
    | none => .ok (p, segment)
    | some x => do
      let (p, injected) ←
        match p.injections.get x with
        | some _ => pure (p, true)
        | none => do
          let (p, success) ← injectDependencies env p x
          if success then inject env p x else pure (p, false)
      if injected then return (p.reference x, { segment with injection := some x })
      else return (p, segment)

end

end Adbi.Instrument
