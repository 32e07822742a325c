import Adbi.Protocol

/-! The argument vector of `handle_SPWN`. `Protocol` keeps the strings that are
passed on; here the vector is the block of memory that the handler allocated,
with every store into it. -/
namespace Adbi.Spawn
open Adbi.Lib Adbi.Payload Adbi.Protocol

/-- The pointers from the start of the block on, those behind its end included;
`none` is the null pointer. -/
abbrev Argv := Nat → Option Word

/-- How the handler goes on or ends. -/
inductive Outcome where
  /-- It answers that a field is missing. -/
  | malformed (name : CString)
  /-- It calls `process_spawn`. -/
  | spawn (argv : Argv)
  | aborted
  /-- A search in the payload does not end. -/
  | endless

/-- `argv[i] = pointer`, recorded. -/
def store (argv : Argv) (i : Nat) (pointer : Option Word) : Traced Nat Argv :=
  ⟨fun j => if j = i then pointer else argv j, [i]⟩

/-- What `snprintf` prints for `argv[%u]`. -/
def fieldName (i : Nat) : CString := text "argv" ++ text "[" ++ decimal i ++ text "]"

/-- `(argc + 1) * sizeof(const char *)`, a `size_t`. -/
def allocation (argc : Word) : Word := (argc + 1#32) * 4#32

/-- The number of pointers that the block has room for. -/
def slots (argc : Word) : Nat := (allocation argc).toNat / 4

section
variable (granted : Word → Bool) (payload : Memory) (fuel : Nat)

/-- The loop over the arguments from the `i`-th on. `read_ptr` stores the
pointer before it compares it with null. -/
def readArgv : Nat → Nat → Argv → Traced Nat (Except Outcome Argv)
  | 0, _, argv => return .ok argv
  | left + 1, i, argv =>
    let name := fieldName i
    if name.length < 16 then
      match (payloadGetStr payload name fuel).value with
      | none => return .error .endless
      | some found => do
        let argv ← store argv i found
        if found.isNone then return .error (.malformed name) else readArgv left (i + 1) argv
    else return .error .aborted

/-- `handle_SPWN` up to its answer or its call of `process_spawn`; `memory` is
what the block holds when it is allocated. -/
def handleSPWN (memory : Argv) : Traced Nat Outcome :=
  match (payloadGetU32 payload (text "argc") fuel).value with
  | none => return .endless
  | some none => return .malformed (text "argc")
  | some (some place) =>
    let argc := (loadU32 payload place).value
    if granted (allocation argc) then do
      match ← readArgv payload fuel argc.toNat 0 memory with
      | .error outcome => return outcome
      | .ok argv => do
        let argv ← store argv argc.toNat none
        return .spawn argv
    else return .aborted

end

end Adbi.Spawn
