import Adbi.Protocol

/-! A session: the requests of a client in the order in which they arrive, each
answered by `handle_packet` before the next one is looked at. -/
namespace Adbi.Session
open Adbi.Lib Adbi.Lib.Traced Adbi.Payload Adbi.Protocol

variable {ω : Type}

/-- What `payload_check` says of the payload of a request, if it comes to an end. -/
def checked (request : Request) : Option Bool :=
  (payloadCheck request.payload (request.length.toNat + 1) request.length).value

/-- The responses, and the server after the last request that was answered. -/
def session (ops : Operations ω) : List Request → Server ω → List Response × Server ω
  | [], s => ([], s)
  | request :: later, s =>
    match handlePacket ops request s with
    | .error (.answer response) s' => (response :: (session ops later s').1, (session ops later s').2)
    | _ => ([], s)

/-- The types of a response. -/
def kinds : List String := ["OKAY", "FAIL", "MALF", "USUP"]

/-- A request for a handler, in a packet that the server accepts. -/
def Asks (request : Request) (type : String) : Prop :=
  checked request = some true ∧ request.type = packetId type

instance (request : Request) (type : String) : Decidable (Asks request type) :=
  inferInstanceAs (Decidable (_ ∧ _))

/-- The tracing flag after a request. -/
def tracingAfter (tracing : Bool) (request : Request) : Bool :=
  if Asks request "STRT" then true
  else if Asks request "STOP" ∨ Asks request "INJL" then false
  else tracing

/-- The strings that the server lists are in its memory. -/
structure Injectable.Fits (injectable : Injectable) : Prop where
  filename : injectable.filename.length + 1 < 2 ^ 32
  name : injectable.name.length + 1 < 2 ^ 32
  comment : ∀ s, injectable.comment = some s → s.length + 1 < 2 ^ 32
  exports : ∀ symbol ∈ injectable.exports, symbol.1.length + 1 < 2 ^ 32
  imports : ∀ symbol ∈ injectable.imports, symbol.1.length + 1 < 2 ^ 32
  adbi : ∀ symbol ∈ injectable.adbi, symbol.1.length + 1 < 2 ^ 32

structure Fits (ops : Operations ω) : Prop where
  injectables : ∀ s, ∀ injectable ∈ ops.injectables s, Injectable.Fits injectable
  injectableGet : ∀ iid s injectable, ops.injectableGet iid s = some injectable →
      Injectable.Fits injectable
  segments : ∀ pid s, ∀ segment ∈ ops.segments pid s, ∀ name, segment.filename = some name →
      name.length + 1 < 2 ^ 32
  injections : ∀ pid s, ∀ injection ∈ ops.injections pid s, injection.filename.length + 1 < 2 ^ 32
  strAddress : ∀ pid address s, (ops.strAddress pid address s).length + 1 < 2 ^ 32
  directory : ∀ path s entries, ops.directory path s = some entries →
      ∀ entry ∈ entries, entry.1.length + 1 < 2 ^ 32

end Adbi.Session
