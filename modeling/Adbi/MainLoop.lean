import Adbi.Lib.Bytes
import Adbi.Lib.Runs

/-! The main loop of the server: `loop` in `adbiserver.c` with the signal handler, the
loop of `wait_main` and the functions that read requests in `communication.c`, each
system call a step of its own. Between any two of them a client may send more and a
tracee may change. What `handle_packet` and the handlers of a status do is left open,
but for the statuses that they take and for `signal_quit`. -/
namespace Adbi.MainLoop
open Adbi.Lib

/-- `sizeof(packet_header_t)`. -/
def headerSize : Nat := 12

/-- `head.length`. -/
def lengthOf (head : Bytes) : Nat := (ofLittleEndian 32 (head.drop 8)).toNat

/-- A packet as it is sent. -/
structure Request where
  head : Bytes
  payload : Bytes
  whole : head.length = headerSize
  announced : payload.length = lengthOf head
  deriving DecidableEq

def Request.bytes (request : Request) : Bytes := request.head ++ request.payload

/-! ## What the kernel keeps -/

/-- The signals that are handled. -/
inductive Signal where
  | child | io | int | term | pipe | alarm
  deriving DecidableEq

/-- A change of a tracee, as `waitpid` reports it. -/
structure Status where
  pid : Nat
  status : BitVec 32
  deriving DecidableEq

/-- The connection of a client. `received` is all that has arrived, `socket` what has
not been read, and `handled` what has been given to `handle_packet`. The socket raises
signals once `async` is set. -/
structure Connection where
  received : Bytes
  socket : Bytes
  handled : List Request
  closed : Bool
  async : Bool
  deriving DecidableEq

/-- The sockets: the one for the client, or the one that a client connects to, or none. -/
inductive Link where
  | connected (c : Connection)
  | listening (client : Option Connection)
  | down
  deriving DecidableEq

/-! ## The program -/

/-- The counters of `signal.c`. -/
structure Signals where
  child : Nat
  io : Nat
  quit : Nat
  disconnected : Nat
  alarm : Nat
  deriving DecidableEq

/-- Which of its two calls of `comm_handle_io` the loop is in. -/
inductive Site where
  | io | disconnected
  deriving DecidableEq

/-- What the server does next. -/
inductive Phase where
  /-- The condition of the loop. -/
  | test
  /-- `signal_wait`. -/
  | suspended
  | checkChild
  /-- The loop of `wait_main`, with its count. -/
  | waitMain (count : Nat)
  /-- In `thread_handle_status` or `thread_handle_status_unknown`. -/
  | statusHandler (count : Nat)
  | checkIo
  /-- `comm_handle_io`. -/
  | handleIo (site : Site)
  /-- `comm_answer`, after `accept`. -/
  | answering (site : Site)
  /-- `comm_read_raw` for the header, with the bytes it has. -/
  | head (site : Site) (got : Bytes)
  /-- `comm_read_raw` for the payload. -/
  | payload (site : Site) (head got : Bytes)
  /-- In `handle_packet`, or sending the response. -/
  | packetHandler (site : Site)
  /-- `comm_handle_io` has returned. -/
  | afterIo (site : Site)
  | checkDisconnected
  | checkAlarm
  | exited
  deriving DecidableEq

/-- `changed` are all the changes of tracees, `statuses` those that have not been
reported, and `reaped` those that have been reported and handled. -/
structure State where
  link : Link
  pending : Signal → Bool
  statuses : List Status
  changed : List Status
  reaped : List Status
  signals : Signals
  phase : Phase

/-- After `init`. -/
def initial : State := ⟨.listening none, fun _ => false, [], [], [], ⟨0, 0, 0, 0, 0⟩, .test⟩

namespace State

/-- A signal that is pending already is not counted again. -/
def raise (s : State) (signal : Signal) : State :=
  { s with pending := fun x => s.pending x || x = signal }

def goto (s : State) (phase : Phase) : State := { s with phase := phase }

/-- `waitpid` reports a status, which is the first one of its process. -/
def reap (s : State) (i : Nat) : Except Unit State :=
  match s.statuses[i]? with
  | some status =>
    if (s.statuses.take i).all fun earlier => earlier.pid ≠ status.pid then
      .ok { s with statuses := s.statuses.eraseIdx i, reaped := s.reaped ++ [status] }
    else .error ()
  | none => .error ()

end State

/-- What happens outside of the server. -/
inductive Environment where
  | connect
  /-- A segment of the stream of the client arrives. -/
  | arrive (bytes : Bytes)
  /-- The client closes the connection. -/
  | close
  | change (status : Status)
  | raise (signal : Signal)

/-- The bytes reach the socket, which signals it if it is asynchronous. -/
def arriveAt (s : State) (c : Connection) (link : Connection → Link) (bytes : Bytes) :
    Except Unit State :=
  if c.closed then .error ()
  else
    let s := { s with link := link { c with received := c.received ++ bytes, socket := c.socket ++ bytes } }
    .ok (if c.async then s.raise .io else s)

def closeAt (s : State) (c : Connection) (link : Connection → Link) : State :=
  let s := { s with link := link { c with closed := true } }
  if c.async then s.raise .io else s

def environment (s : State) : Environment → Except Unit State
  | .connect =>
    match s.link with
    | .listening none => .ok ({ s with link := .listening (some ⟨[], [], [], false, false⟩) }.raise .io)
    | _ => .error ()
  | .arrive bytes =>
    match s.link with
    | .connected c => arriveAt s c .connected bytes
    | .listening (some c) => arriveAt s c (fun c => .listening (some c)) bytes
    | _ => .error ()
  | .close =>
    match s.link with
    | .connected c => .ok (closeAt s c .connected)
    | .listening (some c) => .ok (closeAt s c fun c => .listening (some c))
    | _ => .error ()
  | .change status =>
    .ok ({ s with statuses := s.statuses ++ [status], changed := s.changed ++ [status] }.raise .child)
  | .raise signal => .ok (s.raise signal)

/-- `signal_handler`. -/
def signalHandler (signals : Signals) : Signal → Signals
  | .child => { signals with child := signals.child + 1 }
  | .io => { signals with io := signals.io + 1 }
  | .int | .term => { signals with quit := signals.quit + 1 }
  | .pipe => { signals with disconnected := signals.disconnected + 1 }
  | .alarm => { signals with alarm := signals.alarm + 1 }

/-- What the kernel answers to the next system call of the server, if it makes one. -/
inductive Server where
  /-- There is no system call, or only one answer. -/
  | advance
  /-- `sigsuspend` returns after the handlers of these signals. -/
  | wake (signals : List Signal)
  /-- `waitpid` reports one of the statuses. -/
  | reap (i : Nat)
  /-- `read` returns so many bytes. -/
  | read (count : Nat)
  /-- `read` fails with `EWOULDBLOCK`. -/
  | wouldBlock
  /-- `read` returns 0, and `comm_init_server` returns `listens`. -/
  | endOfStream (listens : Bool)
  /-- `handle_QUIT`. -/
  | quit

/-- `comm_close_connection` and `comm_init_server`. -/
def disconnect (s : State) (site : Site) (listens : Bool) : State :=
  { s with link := if listens then .listening none else .down, phase := .afterIo site }

/-- `comm_read_raw` with the bytes it has, on its way to `count` of them. -/
def commReadRaw (s : State) (c : Connection) (site : Site) (count : Nat) (got : Bytes) (wait : Bool)
    (next : Bytes → Phase) : Server → Except Unit State
  | .read n =>
    if 0 < n ∧ n ≤ c.socket.length ∧ n ≤ count - got.length then
      .ok { s with link := .connected { c with socket := c.socket.drop n }, phase := next (got ++ c.socket.take n) }
    else .error ()
  | .wouldBlock =>
    if c.socket = [] ∧ c.closed =
      false then .ok (if wait || got ≠ [] then s else s.goto (.afterIo site)) else .error ()
  | .endOfStream listens =>
    if c.socket = [] ∧ c.closed = true then .ok (disconnect s site listens) else .error ()
  | _ => .error ()

/-- One step of the server. -/
def serve (s : State) (answer : Server) : Except Unit State :=
  match s.phase, answer with
  | .test, .advance => .ok (s.goto (if s.signals.quit = 0 then .suspended else .exited))
  | .suspended, .wake signals =>
    if signals ≠ [] ∧ signals.Nodup ∧ ∀ signal ∈ signals, s.pending signal = true then
      .ok { s with
        pending := fun x => s.pending x && x ∉ signals
        signals := signals.foldl signalHandler s.signals
        phase := .checkChild }
    else .error ()
  | .checkChild, .advance => .ok (s.goto (if s.signals.child ≠ 0 then .waitMain 128 else .checkIo))
  | .waitMain 0, .advance => .ok (s.goto .checkIo)
  | .waitMain (_ + 1), .advance =>
    if s.statuses = [] then .ok { s with signals.child := 0, phase := .checkIo } else .error ()
  | .waitMain (count + 1), .reap i => (s.goto (.statusHandler count)).reap i
  -- `thread_wait`, in a handler
  | .statusHandler _, .reap i => s.reap i
  | .statusHandler count, .advance => .ok (s.goto (.waitMain count))
  | .checkIo, .advance => .ok (s.goto (if s.signals.io ≠ 0 then .handleIo .io else .checkDisconnected))
  | .handleIo site, .advance =>
    match s.link with
    | .connected _ => .ok (s.goto (.head site []))
    | .listening (some c) => .ok { s with link := .connected c, phase := .answering site }
    | _ => .ok (s.goto (.afterIo site))
  | .answering site, .advance =>
    match s.link with
    | .connected c => .ok { s with link := .connected { c with async := true }, phase := .afterIo site }
    | _ => .error ()
  | .head site got, answer =>
    match s.link with
    | .connected c =>
      commReadRaw s c site headerSize got false (fun got => if got.length =
        headerSize then .payload site got [] else .head site got) answer
    | _ => .error ()
  | .payload site head got, answer =>
    match s.link with
    | .connected c =>
      if complete : head.length = headerSize ∧ got.length = lengthOf head then
        match answer with
        | .advance =>
          let request : Request := ⟨head, got, complete.1, complete.2⟩
          .ok { s with link := .connected { c with handled := c.handled ++ [request] }, phase := .packetHandler site }
        | _ => .error ()
      else commReadRaw s c site (lengthOf head) got true (.payload site head) answer
    | _ => .error ()
  | .packetHandler _, .reap i => s.reap i
  | .packetHandler _, .quit => .ok { s with signals.quit := s.signals.quit + 1 }
  -- `comm_got_data` returns, and does not go around its loop
  | .packetHandler site, .advance => .ok (s.goto (.afterIo site))
  | .afterIo .io, .advance => .ok { s with signals.io := 0, phase := .checkDisconnected }
  | .afterIo .disconnected, .advance => .ok (s.goto .checkAlarm)
  | .checkDisconnected, .advance =>
    .ok (s.goto (if s.signals.disconnected ≠ 0 then .handleIo .disconnected else .checkAlarm))
  | .checkAlarm, .advance => .ok { s with signals.alarm := 0, phase := .test }
  | _, _ => .error ()

inductive Event where
  | environment (e : Environment)
  | server (answer : Server)

def step (s : State) : Event → Except Unit State
  | .environment e => environment s e
  | .server answer => serve s answer

end Adbi.MainLoop
