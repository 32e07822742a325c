import Adbi.Remote

/-! What the commands of the client are for: calls of what the server can do,
without packets between them. -/
namespace Adbi.Direct
open Adbi.Lib Adbi.Payload Adbi.Client Adbi.Protocol
open Adbi.Remote (Command sorted)

variable {ω : Type} (ops : Operations ω)

/-- The tracing flag and the rest of the server. -/
abbrev State (ω : Type) := Bool × ω

inductive Outcome where
  | done
  | refused
  | explained (info : CString)
  | listing (rows : List (List Value))
  | bytes (data : Bytes)

def setTracing (state : Bool) (s : State ω) : State ω :=
  if s.1 = state then s else (state, if state then ops.processContinueAll s.2 else ops.processStopAll s.2)

def word (n : Int) : Word := BitVec.ofInt 32 n
def long (n : Int) : BitVec 64 := BitVec.ofInt 64 n

/-- An attempt, after which the server goes on in any case. -/
def attempt (succeeded : Bool) (s : State ω) : Outcome × State ω :=
  (if succeeded then .done else .refused, s)

/-- A call for an attached process. -/
def onProcess (pid : Int) (f : ω → Outcome × ω) (s : State ω) : Outcome × State ω :=
  match ops.processGet (word pid) s.2 with
  | none => (.refused, s)
  | some rest => ((f rest).1, s.1, ops.processPut (word pid) (f rest).2)

/-- A listing for an injectable that is loaded. -/
def ofInjectable (iid : Int) (list : Injectable → List (List Value)) (s : State ω) : Outcome × State ω :=
  match ops.injectableGet (word iid) s.2 with
  | none => (.refused, s)
  | some injectable => (.listing (list injectable), s)

def symbolRow (symbol : CString × Word) : List Value := [.number symbol.2.toNat, .text symbol.1]

def tracepointRow (tracepoint : Word × Word) : List Value :=
  [.number tracepoint.1.toNat, .number tracepoint.2.toInt]

def injectableRow (injectable : Injectable) : List Value :=
  [.number injectable.id.toNat, .text injectable.filename, .number injectable.references.toNat,
    .text (text (if injectable.library then "library" else "handler")), .text injectable.name,
    .text (injectable.comment.getD [])]

def entryRow (entry : CString × Bool) : List Value :=
  [.text (if entry.2 then entry.1 ++ text "/" else entry.1)]

def regionRow (region : Region) : List Value :=
  [.number region.low.toNat, .number region.high.toNat, .text (text region.type),
    .text (region.file.getD []),
    .number (if region.file.isSome then region.offset else 0#32).toNat]

/-- The regions of a process, of which a segment with trampolines needs its injection. -/
def regions (pid : Int) (rest : ω) : List Region :=
  (((ops.segments (word pid) rest).mapM segmentRegions).getD []).flatten ++
    (ops.injections (word pid) rest).map injectionRegion

/-- Whole words, of 10 KiB at most, read through the first thread that is stopped. -/
def dumped (pid address size : Int) (rest : ω) : Outcome × ω :=
  match threadAnyStopped (ops.threads (word pid) rest) with
  | none => (.bytes [], rest)
  | some thread =>
    let read := ops.memRead thread.tid (long address)
      (BitVec.ofNat 32 (min ((word size).toNat / 4 * 4) 10240))
      (ops.threadDup thread.tid rest)
    (.bytes (read.1.take (read.1.length / 4 * 4)), read.2)

def direct (command : Command) (s : State ω) : Outcome × State ω :=
  match command with
  | .ping => (.done, s)
  | .quit => (.done, s.1, ops.quit s.2)
  | .start => if s.1 then (.refused, s) else (.done, setTracing ops true s)
  | .stop => if s.1 then (.done, setTracing ops false s) else (.refused, s)
  | .processes => (.listing ((ops.processes s.2).map fun pid => [.number pid.toNat]), s)
  | .attach pid =>
    attempt (ops.processAttach s.1 (word pid) s.2).1 (s.1, (ops.processAttach s.1 (word pid) s.2).2)
  | .detach pid => onProcess ops pid (fun rest => (.done, ops.processDetach (word pid) rest)) s
  | .kill pid => onProcess ops pid (fun rest => (.done, ops.processKill (word pid) rest)) s
  | .spawn args =>
    attempt (ops.processSpawn s.1 args s.2).1.isSome (s.1, (ops.processSpawn s.1 args s.2).2)
  | .injectableLoad path =>
    -- the tracees are left stopped
    let stopped := setTracing ops false s
    attempt (ops.injectableLoad path stopped.2).1.isOk (false, (ops.injectableLoad path stopped.2).2)
  | .injectableUnload iid =>
    let stopped := setTracing ops false s
    let unloaded := ops.injectableUnload (word iid) stopped.2
    attempt unloaded.1.isOk (setTracing ops s.1 (false, unloaded.2))
  | .injectables => (.listing ((ops.injectables s.2).map injectableRow), s)
  | .exports iid => ofInjectable ops iid (fun injectable => injectable.exports.map symbolRow) s
  | .imports iid => ofInjectable ops iid (fun injectable => injectable.imports.map symbolRow) s
  | .adbi iid => ofInjectable ops iid (fun injectable => injectable.adbi.map symbolRow) s
  | .tracepoints iid =>
    ofInjectable ops iid (fun injectable => injectable.tracepoints.map tracepointRow) s
  | .loglevel level => (.done, s.1, ops.loggerLevel (word level) s.2)
  | .ls path =>
    match ops.directory path s.2 with
    | none => (.refused, s)
    | some entries => (.listing (entries.map entryRow), s)
  -- the regions of the segments come before those of the injections, until they are sorted by their
  -- addresses
  | .memory pid =>
    onProcess ops pid (fun rest => (.listing (sorted ((regions ops pid rest).map regionRow)), rest)) s
  | .explainAddress pid address =>
    onProcess ops pid (fun rest => (.explained (ops.strAddress (word pid) (long address) rest), rest)) s
  | .dump pid address size => onProcess ops pid (dumped ops pid address size) s

/-- A command whose request can be packed; its number does not matter. -/
def sendable (command : Command) : Bool :=
  (requestPack (packetId command.payload.1) 0 command.payload.2).isSome

/-- The calls for commands, one after the other, without those that are not sent. -/
def calls : List Command → State ω → List (Option Outcome) × State ω
  | [], s => ([], s)
  | command :: later, s =>
    if sendable command then
      (some (direct ops command s).1 :: (calls later (direct ops command s).2).1,
        (calls later (direct ops command s).2).2)
    else (none :: (calls later s).1, (calls later s).2)

end Adbi.Direct
