import Adbi.Client
import Adbi.Session

/-! The commands of the Python client, after `adbiclient/adbi/adbi.py`, with the
server at the other end of the connection. What a command returns as a set or
yields one after the other is the list of it. -/
namespace Adbi.Remote
open Adbi.Lib Adbi.Payload Adbi.Client
open Adbi.Protocol (Operations Server Request Response text decimal packetId handlePacket)

variable {ω : Type}

/-- What a command raises. The first three are `ADBIException`, with the message of the server. -/
inductive Raised where
  | refused (message : Value)
  | unsupported (message : Value)
  | protocolError (message : Value)
  /-- `struct.error`, while a request is packed. -/
  | packing
  /-- `struct.error` or `ValueError`, while a response is unpacked. -/
  | unpacking
  /-- `ValueError`, for a field that is not there. -/
  | missing
  /-- `TypeError`, for a field of another type. -/
  | typing
  /-- `IOError`: the server is gone. -/
  | disconnected

/-- The client, which numbers its requests, and the server. -/
structure Link (ω : Type) where
  seq : Word
  server : Server ω

abbrev Call (ω : Type) := EStateM Raised (Link ω)

/-! ## Packets on their way -/

/-- A request as `comm_got_data` reads it. -/
def received (packet : Bytes) : Request :=
  ⟨ofLittleEndian 32 (packet.take 4), ofLittleEndian 32 ((packet.drop 4).take 4),
    ofLittleEndian 32 ((packet.drop 8).take 4),
    fun place => (packet.drop 12).getD place.toNat 0⟩

/-- What `comm_got_data` sends for a response. -/
def sent (response : Response) : Bytes :=
  littleEndian response.type ++ littleEndian response.seq ++
    littleEndian (BitVec.ofNat 32 response.payload.length) ++ response.payload

/-- `Header.type_decode`. -/
def typeDecode (type : Word) : CString := [24, 16, 8, 0].map fun at_ => type.extractLsb' at_ 8

/-- `__recv`: the type and the payload. -/
def recv (packet : Bytes) : Option (CString × List Client.Element) := do
  let length := (ofLittleEndian 32 ((packet.drop 8).take 4)).toNat
  let elements ← unpackFrom ((packet.drop 12).take length)
  return (typeDecode (ofLittleEndian 32 (packet.take 4)), elements)

/-- `Payload.get`. -/
def getField (elements : List Client.Element) (name : CString) (default : Option Value) :
    Except Raised Value :=
  match elements.find? fun e => e.name = name with
  | some e => .ok e.value
  | none =>
    match default with
    | some value => .ok value
    | none => .error .missing

/-! ## Requests -/

section
variable (ops : Operations ω)

/-- What the client makes of a response. -/
def accept (response : Response) : Except Raised (List Client.Element) := do
  let some (type, elements) := recv (sent response) | throw .unpacking
  if type = text "FAIL" then
    throw (.refused (← getField elements (text "msg") (some (.text (text "Request failed.")))))
  if type = text "USUP" then
    throw (.unsupported (← getField elements (text "msg") (some (.text (text "Not supported.")))))
  if type = text "MALF" then
    throw (.protocolError (← getField elements (text "msg") (some (.text (text "?")))))
  return elements

/-- What has been computed, or is raised. -/
def lift (x : Except Raised α) : Call ω α :=
  match x with
  | .ok a => pure a
  | .error e => throw e

/-- `request`. A server that does not answer closes the connection. -/
def request (type : String) (elements : List Client.Element) : Call ω (List Client.Element) := do
  let link ← get
  match requestPack (packetId type) link.seq.toNat elements with
  | none => do
    set { link with seq := link.seq + 1 }
    throw .packing
  | some packet =>
    match handlePacket ops (received packet) link.server with
    | .error (.answer response) server => do
      set { link with seq := link.seq + 1, server := server }
      lift (accept response)
    | .error _ server | .ok _ server => do
      set { link with seq := link.seq + 1, server := server }
      throw .disconnected

/-! ## Reading a listing -/

/-- `'{:}[{:}]'.format(field, i)`. -/
def numbered (field : String) (i : Nat) : CString := text field ++ text "[" ++ decimal i ++ text "]"

/-- `xrange(response.get(count, 0))`. -/
def range (elements : List Client.Element) (count : String) : Except Raised (List Nat) := do
  match ← getField elements (text count) (some (.number 0)) with
  | .number n => return List.range n.toNat
  | .text _ => throw .typing

/-- The fields with each of the numbers. -/
def rows (elements : List Client.Element) (count : String) (fields : List String) :
    Except Raised (List (List Value)) := do
  (← range elements count).mapM fun i => fields.mapM fun field =>
    getField elements (numbered field i) none

/-- `<=` of values. A number is less than any string. -/
def valueLe : Value → Value → Bool
  | .number a, .number b => decide (a ≤ b)
  | .number _, .text _ => true
  | .text _, .number _ => false
  | .text s, .text t => decide (s ≤ t)

/-- `<=` of tuples: the first values that differ decide. -/
def tupleLe : List Value → List Value → Bool
  | [], _ => true
  | _ :: _, [] => false
  | a :: as, b :: bs => if a = b then tupleLe as bs else valueLe a b

/-- `sorted`. -/
def sorted (tuples : List (List Value)) : List (List Value) := tuples.mergeSort tupleLe

/-- `tobytes`. -/
def tobytes : List Value → Except Raised Bytes
  | [.number n] => .ok (littleEndian (BitVec.ofInt 32 n))
  | _ => .error .typing

/-- An entry of `ls`, with a slash behind a directory. -/
def lsEntry : List Value → Except Raised (List Value)
  | [.text name, directory] => .ok
    [.text (if directory = .number 0 ∨ directory = .text [] then name else name ++ text "/")]
  | _ => .error .typing

/-! ## Commands -/

inductive Command where
  | ping | quit | start | stop | processes
  | attach (pid : Int)
  | detach (pid : Int)
  | kill (pid : Int)
  | spawn (args : List CString)
  | injectableLoad (path : CString)
  | injectableUnload (iid : Int)
  | injectables
  | exports (iid : Int)
  | imports (iid : Int)
  | adbi (iid : Int)
  | tracepoints (iid : Int)
  | loglevel (level : Int)
  | ls (path : CString)
  | memory (pid : Int)
  | explainAddress (pid address : Int)
  | dump (pid address size : Int)

/-- What a command returns: the response, a list of tuples or bytes. -/
inductive Reply where
  | packet (elements : List Client.Element)
  | listing (rows : List (List Value))
  | bytes (data : Bytes)

def putU32 (name : String) (n : Int) : Client.Element := ⟨text name, .u32, .number n⟩
def putU64 (name : String) (n : Int) : Client.Element := ⟨text name, .u64, .number n⟩
def putStr (name : CString) (s : CString) : Client.Element := ⟨name, .str, .text s⟩

/-- The type and the payload of a request. -/
def Command.payload : Command → String × List Client.Element
  | .ping => ("PING", [])
  | .quit => ("QUIT", [])
  | .start => ("STRT", [])
  | .stop => ("STOP", [])
  | .processes => ("PROC", [])
  | .attach pid => ("ATTC", [putU32 "pid" pid])
  | .detach pid => ("DETC", [putU32 "pid" pid])
  | .kill pid => ("KILL", [putU32 "pid" pid])
  | .spawn args =>
    ("SPWN", putU32 "argc" args.length :: args.mapIdx fun i arg => putStr (numbered "argv" i) arg)
  | .injectableLoad path => ("INJL", [putStr (text "path") path])
  | .injectableUnload iid => ("INJU", [putU32 "iid" iid])
  | .injectables => ("INJQ", [])
  | .exports iid => ("INJE", [putU32 "iid" iid])
  | .imports iid => ("INJI", [putU32 "iid" iid])
  | .adbi iid => ("INJA", [putU32 "iid" iid])
  | .tracepoints iid => ("INJT", [putU32 "iid" iid])
  | .loglevel level => ("LLEV", [putU32 "loglevel" level])
  | .ls path => ("LDIR", [putStr (text "path") path])
  | .memory pid => ("MAPS", [putU32 "pid" pid])
  | .explainAddress pid address => ("ADDR", [putU32 "pid" pid, putU64 "address" address])
  | .dump pid address size => ("MEMD", [putU32 "pid" pid, putU64 "address" address, putU32 "size" size])

/-- What a command makes of the response. -/
def Command.reply (elements : List Client.Element) : Command → Except Raised Reply
  | .processes => (rows elements "procc" ["procv"]).map .listing
  | .injectables =>
    (rows elements "injc" ["injid", "injfn", "injrc", "injtp", "injnm", "injcm"]).map .listing
  | .exports _ | .imports _ | .adbi _ => (rows elements "symc" ["symad", "symnm"]).map .listing
  | .tracepoints _ => (rows elements "tptc" ["tpta", "tpth"]).map .listing
  | .ls _ => do
    let entries ← rows elements "entc" ["entv", "entd"]
    return .listing (← entries.mapM lsEntry)
  | .memory _ => do
    let segments ← rows elements "segc" ["seglo", "seghi", "segtype", "segfile", "segoff"]
    return .listing (sorted segments)
  | .dump _ _ _ => do
    let words ← rows elements "size" ["word"]
    return .bytes (← words.mapM tobytes).flatten
  | _ => .ok (.packet elements)

/-- The methods of `ADBI`. -/
def perform (command : Command) : Call ω Reply := do
  let elements ← request ops command.payload.1 command.payload.2
  lift (command.reply elements)

/-- Commands one after the other, until the server is gone: what they return or
raise, and the client and the server after the last one that was answered. -/
def converse : List Command → Link ω → List (Except Raised Reply) × Link ω
  | [], link => ([], link)
  | command :: later, link =>
    match perform ops command link with
    | .ok reply link' => (.ok reply :: (converse later link').1, (converse later link').2)
    | .error .disconnected _ => ([], link)
    | .error e link' => (.error e :: (converse later link').1, (converse later link').2)

end

end Adbi.Remote
