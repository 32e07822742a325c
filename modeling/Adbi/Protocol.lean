import Adbi.Lib.Stateful
import Adbi.Payload

/-! Client requests, after `communication/protocol.c` and
`configuration/state.c`. Every handler is a program that may leave in the
middle: the macros that read a field and those that build a response contain a
`return`. What the handlers call changes the rest of the server in ways that
are left open, and may not return; only `state_tracing_set` touches the tracing
flag. The server is the 32-bit one. -/
namespace Adbi.Protocol
open Adbi.Lib Adbi.Lib.Traced Adbi.Payload

/-- A packet as it was received: the payload is at the start of its memory. -/
structure Request where
  type : Word
  seq : Word
  length : Word
  payload : Memory

/-- The response packet, with its payload. -/
structure Response where
  type : Word
  seq : Word
  payload : List (BitVec 8)

/-! ## Text -/

def text (s : String) : CString := s.toUTF8.data.toList.map UInt8.toBitVec

/-- `%u`. -/
def decimal (n : Nat) : CString :=
  if n < 10 then [BitVec.ofNat 8 (48 + n)] else decimal (n / 10) ++ [BitVec.ofNat 8 (48 + n % 10)]

/-- `%i`. -/
def signed (value : Word) : CString :=
  if value.msb then text "-" ++ decimal (2 ^ 32 - value.toNat) else decimal value.toNat

/-- `packet_id`: the four characters, the first one most significant. -/
def packetId (type : String) : Word := (text type).foldl (fun id c => id <<< 8 ||| c.setWidth 32) 0

/-- `packet_str`: characters that cannot be printed become dots. -/
def packetStr (type : Word) : CString :=
  [24, 16, 8, 0].map fun at_ =>
    let c := type.extractLsb' at_ 8
    if 32#8 ≤ c ∧ c ≤ 126#8 then c else 46#8

/-! ## The server -/

/-- What the handlers read of an injectable. -/
structure Injectable where
  id : Word
  filename : CString
  library : Bool
  name : CString
  references : Word
  comment : Option CString
  tracepoints : List (Word × Word)
  exports : List (CString × Word)
  imports : List (CString × Word)
  adbi : List (CString × Word)

structure Thread where
  tid : Word
  running : Bool
  dead : Bool

/-- What `handle_MAPS` reads of a segment; `injection` is the filename of its injectable. -/
structure Segment where
  start : BitVec 64
  stop : BitVec 64
  filename : Option CString
  offset : Word
  trampolines : BitVec 64
  trampolinesSize : BitVec 64
  injection : Option CString

structure Injection where
  address : BitVec 64
  size : BitVec 64
  filename : CString

/-- What the handlers call, over the rest of the server's state. -/
structure Operations (ω : Type) where
  /-- Whether the server has come down in a function that was called: in a failed assertion
  or allocation, or in `adbi_bug`. -/
  aborted : ω → Bool
  /-- Whether `malloc` finds so many bytes. -/
  allocates : Nat → ω → Bool
  processAttach : Bool → Word → ω → Bool × ω
  processSpawn : Bool → List CString → ω → Option Word × ω
  processGet : Word → ω → Option ω
  processPut : Word → ω → ω
  processDetach : Word → ω → ω
  processKill : Word → ω → ω
  processes : ω → List Word
  processContinueAll : ω → ω
  processStopAll : ω → ω
  processStop : Word → ω → ω
  processContinue : Word → ω → ω
  threads : Word → ω → List Thread
  threadDup : Word → ω → ω
  memRead : Word → BitVec 64 → Word → ω → List (BitVec 8) × ω
  segments : Word → ω → List Segment
  injections : Word → ω → List Injection
  strAddress : Word → BitVec 64 → ω → CString
  injectableLoad : CString → ω → Except CString Injectable × ω
  injectableUnload : Word → ω → Except CString Unit × ω
  injectables : ω → List Injectable
  injectableGet : Word → ω → Option Injectable
  loggerLevel : Word → ω → ω
  quit : ω → ω
  directory : CString → ω → Option (List (CString × Bool))

/-- The tracing flag, the rest of the server, and the payload buffer. -/
structure Server (ω : Type) where
  tracing : Bool
  rest : ω
  buffer : List Element

/-- How a handler is left: with a response, in a failed assertion or allocation of its
own, a wild write or a search without end, because a buffer is too small, or in a
function that it has called and that does not return. -/
inductive Exit where
  | answer (response : Response)
  | broken
  | exhausted
  | aborted

abbrev Handler (ω : Type) := EStateM Exit (Server ω)

variable {ω : Type}

/-! ## Responses -/

/-- `payload_append_bytes` doubles the allocation until the bytes fit, which
with 32 bits it can do up to 2 GiB, if there is so much memory. -/
def put (element : Element) : Handler ω Unit := do
  let s ← get
  let buffer := s.buffer ++ [element]
  if 2 ^ 31 < (payloadBytes buffer).length then throw .exhausted
  else set { s with buffer := buffer }

/-- A number in a name, printed into 16 bytes. -/
def indexed (base : String) (i : Nat) : Handler ω CString :=
  let name := text base ++ text "[" ++ decimal i ++ text "]"
  if name.length < 16 then pure name else throw .exhausted

/-- `respond`. The buffer is at the start of its memory. -/
def respond (request : Request) (type : String) : Handler ω Unit := do
  put payloadPutTerm
  let payload := payloadBytes (← get).buffer
  if (payloadCheck (fun address => payload.getD address.toNat 0) (payload.length + 1)
    (BitVec.ofNat 32 payload.length)).value =
      some true then
    throw (.answer ⟨packetId type, request.seq, payload⟩)
  else throw .broken

/-- `say`, with the message as `vsnprintf` cuts it off. -/
def say (request : Request) (type : String) (message : CString) : Handler ω Unit := do
  put (payloadPutStr (text "msg") (some (message.take 255)))
  respond request type

/-! ## Reading fields -/

/-- `read_ptr`: an accessor that finds nothing ends the handler. -/
def readPtr (request : Request) (type : PayloadType) (name : CString) : Handler ω Word :=
  match (payloadGet type request.payload name (request.length.toNat + 1)).value with
  | none => throw .broken
  | some (some place) => pure place
  | some none => do
    say request "MALF" (text "Field missing: '" ++ name ++ text "'.")
    throw .broken

def readU32 (request : Request) (name : String) : Handler ω Word := do
  let place ← readPtr request .u32 (text name)
  pure (loadU32 request.payload place).value

def readU64 (request : Request) (name : String) : Handler ω (BitVec 64) := do
  let place ← readPtr request .u64 (text name)
  pure ((loadU32 request.payload (place + 4#32)).value ++ (loadU32 request.payload place).value)

/-- The string at a place of the payload. -/
def stringAt (memory : Memory) (place : Word) : CString :=
  (List.range (strlen memory (2 ^ 32) place).value).map fun i => memory (place + BitVec.ofNat 32 i)

def readStr (request : Request) (name : CString) : Handler ω CString := do
  let place ← readPtr request .str name
  pure (stringAt request.payload place)

section
variable (ops : Operations ω) (request : Request)

def okay (message : CString) : Handler ω Unit := say request "OKAY" message

def fail (message : CString) : Handler ω Unit := say request "FAIL" message

/-- The end of a call, if it comes to an end. -/
def returns : Handler ω Unit := do
  if ops.aborted (← get).rest then throw .aborted

def change (f : ω → ω) : Handler ω Unit := do
  modify fun s => { s with rest := f s.rest }
  returns ops

/-- A call that also has a result. -/
def call (f : ω → α × ω) : Handler ω α := do
  let s ← get
  set { s with rest := (f s.rest).2 }
  returns ops
  pure (f s.rest).1

/-- `adbi_malloc`. -/
def adbiMalloc (size : Nat) : Handler ω Unit := do
  if !ops.allocates size (← get).rest then throw .broken

/-- `process_get`, with the failure that every handler answers in its own words. -/
def withProcess (pid : Word) (message : CString) : Handler ω Unit := do
  match ops.processGet pid (← get).rest with
  | none => do
    fail request message
    throw .broken
  | some rest => modify fun s => { s with rest := rest }

/-- `state_tracing_set`. -/
def stateTracingSet (state : Bool) : Handler ω Unit := do
  let s ← get
  if s.tracing = state then pure ()
  else do
    set { s with
      tracing := state, rest := if state then ops.processContinueAll s.rest
        else ops.processStopAll s.rest }
    returns ops

/-! ## Process control -/

def handleATTC : Handler ω Unit := do
  let pid ← readU32 request "pid"
  if ← call ops (ops.processAttach (← get).tracing pid) then
    okay request (text "Attached " ++ decimal pid.toNat ++ text ".")
  else fail request (text "Error attaching " ++ decimal pid.toNat ++ text ".")

def handleDETC : Handler ω Unit := do
  let pid ← readU32 request "pid"
  withProcess ops request pid (text "Process " ++ decimal pid.toNat ++ text " not attached.")
  change ops (ops.processDetach pid)
  change ops (ops.processPut pid)
  okay request (text "Detached from process " ++ signed pid ++ text ".")

/-- The arguments from the `i`-th on, into an array of as many pointers as were
allocated. The pointer is stored before it is compared with null. -/
def readArgv (slots : Nat) : Nat → Nat → Handler ω (List CString)
  | 0, _ => pure []
  | left + 1, i => do
    let name ← indexed "argv" i
    if i < slots then
      let argument ← readStr request name
      let later ← readArgv slots left (i + 1)
      pure (argument :: later)
    else throw .broken

def handleSPWN : Handler ω Unit := do
  let argc ← readU32 request "argc"
  -- `(argc + 1) * sizeof(const char *)` wraps
  let slots := (argc.toNat + 1) % 2 ^ 30
  adbiMalloc ops (4 * slots)
  let argv ← readArgv request slots argc.toNat 0
  if argc.toNat < slots then
    match ← call ops (ops.processSpawn (← get).tracing argv) with
    | some pid => okay request (text "Spawned " ++ decimal pid.toNat ++ text ".")
    | none => fail request (text "Error spawning process.")
  else throw .broken

def handleKILL : Handler ω Unit := do
  let pid ← readU32 request "pid"
  withProcess ops request pid (text "Process " ++ decimal pid.toNat ++ text " not attached.")
  change ops (ops.processKill pid)
  change ops (ops.processPut pid)
  okay request (text "Process " ++ decimal pid.toNat ++ text " killed.")

/-- The callback of a listing is called for the entries in turn. -/
def report (entry : Nat → α → Handler ω Unit) (entries : List α) : Handler ω Unit :=
  entries.zipIdx.forM fun numbered => entry numbered.2 numbered.1

def handlePROC : Handler ω Unit := do
  let pids := ops.processes (← get).rest
  report (fun i pid => do put (payloadPutU32 (← indexed "procv" i) pid)) pids
  put (payloadPutU32 (text "procc") (BitVec.ofNat 32 pids.length))
  -- the plural is the wrong way round
  okay request (text "Tracing " ++ decimal pids.length ++ text " process" ++
    text (if pids.isEmpty then "es" else "") ++ text ".")

/-! ## Injectables -/

/-- Without a `return` between the response and the end, the flag would be set again. -/
def handleINJL : Handler ω Unit := do
  let tstate := (← get).tracing
  if tstate then stateTracingSet ops false
  let path ← readStr request (text "path")
  match ← call ops (ops.injectableLoad path) with
  | .ok injectable =>
    okay request (text "Loaded injectable " ++ decimal injectable.id.toNat ++ text " (" ++
      injectable.name ++ text ") from " ++
      path ++ text ".")
  | .error whynot =>
    fail request (text "Error loading injectable from " ++ path ++ text ": " ++ whynot ++ text ".")
  if tstate then stateTracingSet ops true

def handleINJU : Handler ω Unit := do
  let iid ← readU32 request "iid"
  let tstate := (← get).tracing
  if tstate then stateTracingSet ops false
  let res ← call ops (ops.injectableUnload iid)
  if tstate then stateTracingSet ops true
  match res with
  | .ok _ => okay request (text "Injectable " ++ decimal iid.toNat ++ text " unloaded.")
  | .error whynot =>
    fail request (text "Error unloading injectable " ++ decimal iid.toNat ++ text ": " ++
      whynot ++ text ".")

def handleINJQ : Handler ω Unit := do
  let injectables := ops.injectables (← get).rest
  report (fun i injectable => do
    put (payloadPutU32 (← indexed "injid" i) injectable.id)
    put (payloadPutStr (← indexed "injfn" i) (some injectable.filename))
    put (payloadPutStr (← indexed "injtp" i)
      (some (text (if injectable.library then "library" else "handler"))))
    put (payloadPutStr (← indexed "injnm" i) (some injectable.name))
    put (payloadPutU32 (← indexed "injrc" i) injectable.references)
    put (payloadPutStr (← indexed "injcm" i) injectable.comment)) injectables
  put (payloadPutU32 (text "injc") (BitVec.ofNat 32 injectables.length))
  okay request (decimal injectables.length ++ text " injectable" ++ text (if injectables.length =
    1 then "" else "s") ++
    text " loaded.")

/-- `injectable_get`, with the failure that the handlers answer. -/
def withInjectable (iid : Word) : Handler ω Injectable := do
  match ops.injectableGet iid (← get).rest with
  | none => do
    fail request (text "No such injectable: " ++ decimal iid.toNat ++ text ".")
    throw .broken
  | some injectable => pure injectable

/-- The message that counts what was listed. -/
def counted (noun : String) (n : Nat) : CString :=
  if n = 0 then text "No " ++ text noun ++ text "s defined."
  else decimal n ++ text " " ++ text noun ++ text (if n = 1 then "" else "s") ++ text " defined."

def handleINJT : Handler ω Unit := do
  let iid ← readU32 request "iid"
  let injectable ← withInjectable ops request iid
  report (fun i tracepoint => do
    put (payloadPutU32 (← indexed "tpta" i) tracepoint.1)
    put (payloadPutI32 (← indexed "tpth" i) tracepoint.2)) injectable.tracepoints
  put (payloadPutU32 (text "tptc") (BitVec.ofNat 32 injectable.tracepoints.length))
  okay request (counted "tracepoint" injectable.tracepoints.length)

/-- `handle_INJ_`. -/
def handleSymbols (symbols : Injectable → List (CString × Word)) : Handler ω Unit := do
  let iid ← readU32 request "iid"
  let injectable ← withInjectable ops request iid
  report (fun i symbol => do
    put (payloadPutStr (← indexed "symnm" i) (some symbol.1))
    put (payloadPutU32 (← indexed "symad" i) symbol.2)) (symbols injectable)
  put (payloadPutU32 (text "symc") (BitVec.ofNat 32 (symbols injectable).length))
  okay request (counted "symbol" (symbols injectable).length)

def handleINJE : Handler ω Unit := handleSymbols ops request Injectable.exports
def handleINJI : Handler ω Unit := handleSymbols ops request Injectable.imports
def handleINJA : Handler ω Unit := handleSymbols ops request Injectable.adbi

/-! ## Server control -/

def handleLLEV : Handler ω Unit := do
  let loglevel ← readU32 request "loglevel"
  change ops (ops.loggerLevel loglevel)
  okay request (text "Log level set to " ++ signed loglevel ++ text ".")

def handleSTRT : Handler ω Unit := do
  if (← get).tracing then fail request (text "Tracees are already running.")
  stateTracingSet ops true
  okay request (text "All inferiors are now running.")

def handleSTOP : Handler ω Unit := do
  if !(← get).tracing then fail request (text "Tracees are already stopped.")
  stateTracingSet ops false
  okay request (text "All inferiors are now stopped.")

def handlePING : Handler ω Unit := okay request (text "Ping-pong.")

def handleQUIT : Handler ω Unit := do
  change ops ops.quit
  okay request (text "ADBI Server quitting.")

def handleLDIR : Handler ω Unit := do
  let path ← readStr request (text "path")
  match ops.directory path (← get).rest with
  | none => fail request (text "No such directory: " ++ path ++ text ".")
  | some entries =>
    report (fun i entry => do
      put (payloadPutStr (← indexed "entv" i) (some entry.1))
      put (payloadPutU32 (← indexed "entd" i) (if entry.2 then 1#32 else 0#32))) entries
    put (payloadPutU32 (text "entc") (BitVec.ofNat 32 entries.length))
    okay request (text "Found " ++ decimal entries.length ++ text " elements.")

/-! ## Process diagnostics -/

def handleADDR : Handler ω Unit := do
  let pid ← readU32 request "pid"
  let address ← readU64 request "address"
  withProcess ops request pid (text "Not attached to " ++ decimal pid.toNat ++ text ".")
  let info := ops.strAddress pid address (← get).rest
  put (payloadPutU64 (text "address") address)
  put (payloadPutStr (text "info") (some info))
  change ops (ops.processPut pid)
  okay request (text "Address " ++ info ++ text ".")

/-- `process_is_running`. -/
def processIsRunning (threads : List Thread) : Bool :=
  threads.foldl (fun running thread => running && thread.running) false

/-- `thread_any_stopped`, without the reference that it takes. -/
def threadAnyStopped (threads : List Thread) : Option Thread :=
  threads.find? fun thread => !thread.running && !thread.dead

/-- The `i`-th word of the data. -/
def wordAt (data : List (BitVec 8)) (i : Nat) : Word :=
  data.getD (4 * i + 3) 0 ++ data.getD (4 * i + 2) 0 ++ data.getD (4 * i + 1) 0 ++ data.getD (4 * i) 0

def handleMEMD : Handler ω Unit := do
  let pid ← readU32 request "pid"
  let address ← readU64 request "address"
  let size ← readU32 request "size"
  let size := min (size.toNat / 4 * 4) 10240
  withProcess ops request pid (text "Not attached to " ++ decimal pid.toNat ++ text ".")
  let running := processIsRunning (ops.threads pid (← get).rest)
  if running then change ops (ops.processStop pid)
  match threadAnyStopped (ops.threads pid (← get).rest) with
  -- the assertion of `mem_read`
  | none => throw .broken
  | some thread => do
    change ops (ops.threadDup thread.tid)
    let data ← call ops (ops.memRead thread.tid address (BitVec.ofNat 32 size))
    if running then change ops (ops.processContinue pid)
    let words := data.length / 4
    report (fun i _ => do put (payloadPutU32 (← indexed "word" i) (wordAt data i)))
      (List.replicate words ())
    put (payloadPutU64 (text "address") address)
    put (payloadPutU32 (text "size") (BitVec.ofNat 32 words))
    change ops (ops.processPut pid)
    okay request (text "Dumped " ++ decimal words ++ text " bytes.")

/-- A region of `handle_MAPS`. -/
structure Region where
  type : String
  low : BitVec 64
  high : BitVec 64
  file : Option CString
  offset : Word

/-- `callback_segment`. The trampolines are named after the segment's injection, which is
dereferenced. -/
def segmentRegions (segment : Segment) : Option (List Region) :=
  let natural : Region := ⟨"natural", segment.start, segment.stop, segment.filename, segment.offset⟩
  if segment.trampolines = 0#64 then some [natural]
  else
    segment.injection.map fun injection =>
      [natural, ⟨"trampoline", segment.trampolines, segment.trampolines + segment.trampolinesSize,
        some ((text "<" ++ segment.filename.getD (text "(null)") ++ text " - " ++ injection ++
          text ">").take 127), 0#32⟩]

/-- `callback_injection`. -/
def injectionRegion (injection : Injection) : Region :=
  ⟨"injection", injection.address, injection.address + injection.size, some injection.filename, 0#32⟩

def reportRegion (i : Nat) (region : Region) : Handler ω Unit := do
  put (payloadPutU64 (← indexed "seglo" i) region.low)
  put (payloadPutU64 (← indexed "seghi" i) region.high)
  put (payloadPutStr (← indexed "segtype" i) (some (text region.type)))
  put (payloadPutStr (← indexed "segfile" i) (some (region.file.getD [])))
  put (payloadPutU32 (← indexed "segoff" i) (if region.file.isSome then region.offset else 0#32))

def handleMAPS : Handler ω Unit := do
  let pid ← readU32 request "pid"
  withProcess ops request pid (text "Not attached to " ++ decimal pid.toNat ++ text ".")
  match (ops.segments pid (← get).rest).mapM segmentRegions with
  | none => throw .broken
  | some natural =>
    let regions := natural.flatten ++ (ops.injections pid (← get).rest).map injectionRegion
    report reportRegion regions
    put (payloadPutU32 (text "segc") (BitVec.ofNat 32 regions.length))
    change ops (ops.processPut pid)
    okay request (text "Process " ++ decimal pid.toNat ++ text " has " ++ decimal regions.length ++
      text " segment" ++
      text (if regions.length = 1 then "" else "s") ++ text ".")

/-! ## Dispatch -/

/-- The handlers, in the order in which `handle_packet` compares the type. -/
def handlers : List (String × Handler ω Unit) :=
  [("ATTC", handleATTC ops request), ("DETC", handleDETC ops request), ("SPWN", handleSPWN ops request),
    ("KILL", handleKILL ops request), ("PROC", handlePROC ops request), ("INJL", handleINJL ops request),
    ("INJU", handleINJU ops request), ("INJQ", handleINJQ ops request), ("INJE", handleINJE ops request),
    ("INJI", handleINJI ops request), ("INJA", handleINJA ops request), ("INJT", handleINJT ops request),
    ("LLEV", handleLLEV ops request), ("STRT", handleSTRT ops request), ("STOP", handleSTOP ops request),
    ("QUIT", handleQUIT ops request), ("ADDR", handleADDR ops request), ("MEMD", handleMEMD ops request),
    ("MAPS", handleMAPS ops request), ("LDIR", handleLDIR ops request), ("PING", handlePING request)]

/-- `handle_packet`. A check that does not come to an end never returns. -/
def handlePacket : Handler ω Unit := do
  modify fun s => { s with buffer := [] }
  match (payloadCheck request.payload (request.length.toNat + 1) request.length).value with
  | none => throw .broken
  | some false => say request "MALF" (text "Packet payload malformed.")
  | some true =>
    match (handlers ops request).find? fun entry => packetId entry.1 = request.type with
    | some entry => entry.2
    | none => say request "USUP" (text "Unsupported packet type: " ++ packetStr request.type ++ text ".")

end

end Adbi.Protocol
