import Adbi.ListingProofs
import Mathlib.Tactic.IntervalCases

/-! What each handler answers to a request that has its fields: the fields of the
response, and the state that it leaves the rest of the server in. -/
namespace Adbi.HandlerProofs
open Adbi.Lib Adbi.Lib.Traced Adbi.Payload Adbi.PayloadProofs Adbi.PayloadPutProofs Adbi.Client
  Adbi.ClientProofs
open Adbi.Protocol Adbi.Session Adbi.SessionProofs Adbi.ListingProofs
open Adbi.Remote (numbered putU32 putU64 putStr)
open Adbi.Direct (word long)
open Adbi.MemDumpProofs (decimal_plain fieldU32)

variable {ω α : Type} {ops : Operations ω} {request : Request}

/-! ## Responses -/

/-- The message of a response. -/
def messagePut (message : CString) : Put := .str (text "msg") (some message)

/-- Elements that a response has room for. -/
structure Fine (buffer : List Payload.Element) : Prop where
  built : Built buffer
  fits : (payloadBytes buffer).length ≤ 2 ^ 31

/-- The buffer holds exactly what has been put into it. -/
structure Filled (puts : List Put) (s : Server ω) : Prop where
  buffer : s.buffer = puts.map Put.element
  fine : Fine s.buffer

/-- The server does not come back from the handler. -/
def Gone (r : EStateM.Result Exit (Server ω) Unit) : Prop :=
  ∃ e s', r = .error e s' ∧ ∀ response, e ≠ .answer response

theorem gone_exhausted {r : EStateM.Result Exit (Server ω) Unit}
    (full : ∃ s', r = .error .exhausted s') : Gone r := by
  obtain ⟨s', rfl⟩ := full
  exact ⟨_, s', rfl, by simp⟩

theorem gone_broken {s' : Server ω} : Gone (.error .broken s') := ⟨_, s', rfl, by simp⟩

theorem gone_aborted {s' : Server ω} : Gone (.error .aborted s') := ⟨_, s', rfl, by simp⟩

/-- A handler is left with the response of this kind and with these fields, besides the message,
unless the server is gone. -/
def Replies (request : Request) (kind : String) (puts : List Put) (tracing : Bool) (rest : ω)
    (r : EStateM.Result Exit (Server ω) Unit) : Prop :=
  Gone r ∨
    ∃ message s', r = .error (.answer ⟨packetId kind, request.seq,
        payloadBytes ((puts ++ [messagePut message]).map Put.element ++ [payloadPutTerm])⟩) s' ∧
      s'.tracing = tracing ∧ s'.rest = rest ∧ Built ((puts ++ [messagePut message]).map Put.element) ∧
      (payloadBytes ((puts ++ [messagePut message]).map Put.element ++ [payloadPutTerm])).length ≤ 2 ^ 31

section Replies

variable {kind : String} {puts more : List Put} {tracing : Bool} {rest : ω} {s : Server ω}

/-- The message ends the response. -/
theorem replies_say (filled : Filled puts s) (message : CString) :
    Replies request kind puts s.tracing s.rest (say request kind message s) := by
  have whole : s.buffer ++ [messageElement message] =
      (puts ++ [messagePut (message.take 255)]).map Put.element := by
    rw [filled.buffer, List.map_append]
    rfl
  have built : Built (s.buffer ++ [messageElement message]) :=
    built_add filled.fine.built (storable_message message) (by simp [messageElement, payloadPutStr])
  rcases say_cases request kind message filled.fine.built with full | ⟨said, readable⟩
  · exact .inl (gone_exhausted full)
  · rw [whole] at said readable built
    exact .inr ⟨_, _, said, rfl, rfl, built, readable.fits⟩

/-- A step of a handler that comes to its end. -/
theorem replies_step {x : Handler ω α} {y : α → Handler ω Unit} {a : α} {s' : Server ω}
    (ran : x s = .ok a s')
    (later : Replies request kind puts tracing rest (y a s')) :
    Replies request kind puts tracing rest ((x >>= y) s) := by
  rwa [run_bind, ran]

/-- A program that only adds to the response, if there is room. -/
def Adds (x : Handler ω Unit) (puts : List Put) : Prop :=
  ∀ s, Fine s.buffer → (∃ s', x s = .error .exhausted s') ∨
    x s = .ok () { s with buffer := s.buffer ++ puts.map Put.element } ∧
    Fine (s.buffer ++ puts.map Put.element)

theorem replies_adds {x : Handler ω Unit} {y : Unit → Handler ω Unit} {all : List Put}
    (filled : Filled puts s) (adds : Adds x more)
    (later : ∀ s', Filled (puts ++ more) s' → s'.tracing = s.tracing → s'.rest = s.rest →
      Replies request kind all tracing rest (y () s')) :
    Replies request kind all tracing rest ((x >>= y) s) := by
  rcases adds s filled.fine with ⟨s', full⟩ | ⟨added, built⟩
  · exact .inl (gone_exhausted ⟨s', by rw [run_bind, full]⟩)
  · refine replies_step added (later _ ⟨?_, built⟩ rfl rfl)
    rw [filled.buffer, List.map_append]

end Replies

/-! ## Adding to a response -/

private theorem storable_cell {name : CString} (fits : Plain name) {cell : Cell} (short : cell.Short) :
    Storable (cell.put name).element ∧ (cell.put name).element.type ≠ .terminator := by
  cases cell with
  | u64 value => exact ⟨storable_u64 fits value, by simp [Cell.put, Put.element, payloadPutU64]⟩
  | u32 value => exact ⟨storable_u32 fits value, by simp [Cell.put, Put.element, payloadPutU32]⟩
  | i32 value => exact ⟨storable_i32 fits value, by simp [Cell.put, Put.element, payloadPutI32]⟩
  | str value => exact ⟨storable_str fits short, by simp [Cell.put, Put.element, payloadPutStr]⟩

theorem adds_cell {name : CString} (fits : Plain name) (cell : Cell) (short : cell.Short) :
    Adds (put (cell.put name).element : Handler ω Unit) [cell.put name] := by
  intro s fine
  obtain ⟨storable, plain⟩ := storable_cell fits short
  rcases put_cases (cell.put name).element s with full | ⟨added, room⟩
  · exact .inl ⟨s, full⟩
  · exact .inr ⟨added, built_add fine.built storable plain, room⟩

theorem adds_nil : Adds (pure () : Handler ω Unit) [] :=
  fun s fine => .inr ⟨by simp, by simpa using fine⟩

theorem adds_bind {x : Handler ω Unit} {y : Unit → Handler ω Unit} {first second : List Put}
    (here : Adds x first) (later : Adds (y ()) second) :
    Adds (x >>= y) (first ++ second) := by
  intro s fine
  rcases here s fine with ⟨s', full⟩ | ⟨added, now⟩
  · exact .inl ⟨s', by rw [run_bind, full]⟩
  · rcases later { s with buffer := s.buffer ++ first.map Put.element } now with
        ⟨s', full⟩ | ⟨rest, finally_⟩
    · exact .inl ⟨s', by rw [run_bind, added]; exact full⟩
    · refine .inr ⟨?_, ?_⟩
      · rw [run_bind, added]
        simpa [List.append_assoc] using rest
      · simpa [List.append_assoc] using finally_

/-- A name with a number fits, or the server gives up. -/
theorem indexed_cases (ω : Type) {base : String} (plain : 0#8 ∉ text base) (i : Nat) :
    (∀ s : Server ω, indexed base i s = .error .exhausted s) ∨
    (∀ s : Server ω, indexed base i s = .ok (numbered base i) s) ∧ Plain (numbered base i) := by
  by_cases short : (numbered base i).length < 16
  · have brackets : 0#8 ∉ text "[" ∧ 0#8 ∉ text "]" := by decide
    refine .inr ⟨fun s => ?_, ?_, by omega⟩
    · exact congrFun (if_pos short) s
    · simp only [numbered, List.mem_append, not_or]
      exact ⟨⟨⟨plain, brackets.1⟩, decimal_plain i⟩, brackets.2⟩
  · exact .inl fun s => congrFun (if_neg short) s

theorem adds_indexed {base : String} (plain : 0#8 ∉ text base) (i : Nat) (cell : Cell)
    (short : cell.Short) :
    Adds (indexed base i >>= fun name => put (cell.put name).element : Handler ω Unit)
    [cell.put (numbered base i)] := by
  intro s fine
  rcases indexed_cases ω plain i with long | ⟨named, fits⟩
  · exact .inl ⟨s, by rw [run_bind, long]⟩
  · rw [run_bind, named]
    exact adds_cell fits cell short s fine

/-- A numbered field, and what follows. -/
theorem adds_indexed_then {base : String} (plain : 0#8 ∉ text base) (i : Nat) (cell : Cell)
    (short : cell.Short) {y : Unit → Handler ω Unit}
    {second : List Put} (later : Adds (y ()) second) :
    Adds (indexed base i >>= fun name => put (cell.put name).element >>= y)
    (cell.put (numbered base i) :: second) := by
  rw [← bind_assoc]
  exact adds_bind (adds_indexed plain i cell short) later

theorem adds_report {entry : Nat → α → Handler ω Unit} {columns : Columns α} {entries : List α}
    (each : ∀ i, ∀ a ∈ entries, Adds (entry i a) (rowPuts columns i a)) :
    Adds (report entry entries) (tablePuts columns entries) := by
  suffices from_ : ∀ (l : List (α × Nat)), (∀ e ∈ l, e.1 ∈ entries) →
      Adds (l.forM fun numbered => entry numbered.2 numbered.1) (l.flatMap fun e =>
        rowPuts columns e.2 e.1) from
    from_ entries.zipIdx fun e member => List.fst_mem_of_mem_zipIdx member
  intro l inside
  induction l with
  | nil => exact adds_nil
  | cons e rest ih =>
    exact adds_bind (each e.2 e.1 (inside e List.mem_cons_self)) (ih fun d member =>
      inside d (List.mem_cons_of_mem e member))

/-! ## Reading the request -/

/-- A request with these fields, as the server reads them. -/
structure Delivered (request : Request) (type : String) (elements : List Client.Element) : Prop where
  asks : Asks request type
  fields : ∀ e ∈ elements, ∃ place,
      (payloadGet e.type request.payload e.name (request.length.toNat + 1)).value = some (some place) ∧
    Reads request.payload place e.type e.value
  plain : ∀ e ∈ elements, ∀ s, e.value = .text s → 0#8 ∉ s

section Reading

variable {type : String} {elements : List Client.Element} {n : Int}

private theorem u32_delivered (delivered : Delivered request type elements) {name : String}
    (member : putU32 name n ∈ elements) :
    ∃ place, (payloadGet .u32 request.payload (text name) (request.length.toNat + 1)).value =
      some (some place) ∧
      (loadU32 request.payload place).value = word n := by
  obtain ⟨place, found, reads⟩ := delivered.fields _ member
  simp only [putU32] at found reads
  refine ⟨place, found, ?_⟩
  rw [word, ← show ((loadU32 request.payload place).value.toNat : Int) = n from reads,
    BitVec.ofInt_natCast, BitVec.ofNat_toNat,
    BitVec.setWidth_eq]

theorem fieldU32_delivered (delivered : Delivered request type elements) {name : String}
    (member : putU32 name n ∈ elements) :
    fieldU32 request name = some (word n) := by
  obtain ⟨place, found, value⟩ := u32_delivered delivered member
  simp only [fieldU32, found, value]

theorem readU32_delivered (delivered : Delivered request type elements) {name : String}
    (member : putU32 name n ∈ elements) (s : Server ω) :
    readU32 request name s = .ok (word n) s := by
  obtain ⟨place, found, value⟩ := u32_delivered delivered member
  simp only [readU32, readPtr, found]
  exact congrArg (fun v => EStateM.Result.ok v s) value

theorem readU64_delivered (delivered : Delivered request type elements) {name : String}
    (member : putU64 name n ∈ elements) (s : Server ω) :
    readU64 request name s = .ok (long n) s := by
  obtain ⟨place, found, reads⟩ := delivered.fields _ member
  simp only [putU64] at found reads
  have value : (loadU32 request.payload (place + 4#32)).value ++
      (loadU32 request.payload place).value = long n := by
    rw [long, ← show (((loadU32 request.payload (place + 4#32)).value ++
      (loadU32 request.payload place).value).toNat : Int) = n from reads,
      BitVec.ofInt_natCast, BitVec.ofNat_toNat, BitVec.setWidth_eq]
  simp only [readU64, readPtr, found]
  exact congrArg (fun v => EStateM.Result.ok v s) value

/-- A string without zeros that ends in memory is shorter than the memory. -/
private theorem string_short {memory : Memory} {place : Word} {string : CString}
    (plain : 0#8 ∉ string) (holds : Holds memory place (string ++ [0#8])) :
    string.length < 2 ^ 32 := by
  by_contra large
  have inside : string.length - 2 ^ 32 < (string ++ [0#8]).length := by
    rw [List.length_append, List.length_singleton]
    omega
  have ends := holds string.length (by simp)
  have wraps := holds (string.length - 2 ^ 32) inside
  have same : BitVec.ofNat 32 (string.length - 2 ^ 32) = BitVec.ofNat 32 string.length := by
    apply BitVec.eq_of_toNat_eq
    rw [BitVec.toNat_ofNat, BitVec.toNat_ofNat]
    omega
  rw [same, ends] at wraps
  simp only [List.get_eq_getElem, List.getElem_concat_length] at wraps
  rw [List.getElem_append_left (by omega)] at wraps
  exact plain (wraps ▸ List.getElem_mem _)

theorem stringAt_holds {memory : Memory} {place : Word} {string : CString} (plain : 0#8 ∉ string)
    (holds : Holds memory place (string ++ [0#8])) :
    stringAt memory place = string := by
  have short := string_short plain holds
  have char (i : Nat) (inside : i < string.length) : memory (place + BitVec.ofNat 32 i) = string[i] := by
    have here := holds i (by simp; omega)
    simpa [inside] using here
  have length : (strlen memory (2 ^ 32) place).value = string.length := by
    refine (strlen_eq_iff short).mpr ⟨?_, fun k inside zero => ?_⟩
    · have ends := holds string.length (by simp)
      simpa using ends
    · rw [char k inside] at zero
      exact plain (zero ▸ List.getElem_mem _)
  rw [stringAt, length]
  refine List.ext_getElem (by simp) fun i inside _ => ?_
  rw [List.getElem_map, List.getElem_range]
  exact char i (by simpa using inside)

theorem readStr_delivered (delivered : Delivered request type elements) {name string : CString}
    (member : putStr name string ∈ elements) (s : Server ω) :
    readStr request name s = .ok string s := by
  obtain ⟨place, found, reads⟩ := delivered.fields _ member
  simp only [putStr] at found reads
  have value := stringAt_holds (delivered.plain _ member string rfl)
    (show Holds request.payload place (string ++ [0#8]) from reads)
  simp only [readStr, readPtr, found]
  exact congrArg (fun v => EStateM.Result.ok v s) value

end Reading

/-! ## The commands -/

open Adbi.Remote (Command getField rows)
open Adbi.Direct

/-- What the client gets out of a response is what the call results in. -/
def Shows (command : Command) (kind : String) (puts : List Put) : Outcome → Prop
  | .refused => kind = "FAIL"
  | .done => kind = "OKAY" ∧ ∀ elements, ∃ packet, command.reply elements = .ok (.packet packet)
  | .explained info => kind = "OKAY" ∧ (∀ elements, command.reply elements = .ok (.packet elements)) ∧
      ∀ message, getField ((puts ++ [messagePut message]).map Put.value) (text "info") none =
        .ok (.text info)
  | .listing rows =>
    kind = "OKAY" ∧ ∀ message, command.reply ((puts ++ [messagePut message]).map Put.value) =
      .ok (.listing rows)
  | .bytes data =>
    kind = "OKAY" ∧ ∀ message, command.reply ((puts ++ [messagePut message]).map Put.value) =
      .ok (.bytes data)

/-- The handler answers with what the call results in, and leaves the state that the call leaves. -/
def Handled (ops : Operations ω) (request : Request) (command : Command) (s : Server ω)
    (r : EStateM.Result Exit (Server ω) Unit) : Prop :=
  Gone r ∨ ∃ kind puts, Replies request kind puts (direct ops command (s.tracing, s.rest)).2.1
    (direct ops command (s.tracing, s.rest)).2.2 r ∧
    Shows command kind puts (direct ops command (s.tracing, s.rest)).1

/-- What follows a step that comes to its end, or the server is gone. -/
theorem handled_step {command : Command} {s : Server ω} {r r' : EStateM.Result Exit (Server ω) Unit}
    (step : Gone r ∨ r = r')
    (later : Handled ops request command s r') : Handled ops request command s r := by
  rcases step with gone | rfl
  · exact .inl gone
  · exact later

/-! ## Calls -/

section Calls

variable {y : Unit → Handler ω Unit}

private theorem returns_cases (ops : Operations ω) (s : Server ω) :
    Gone ((returns ops >>= y) s) ∨ (returns ops >>= y) s = y () s := by
  by_cases down : ops.aborted s.rest = true
  · left
    simp only [returns, run_bind, run_get, if_pos down, run_throw]
    exact gone_aborted
  · right
    simp only [returns, run_bind, run_get, if_neg down, run_pure]

theorem adbiMalloc_cases (ops : Operations ω) (size : Nat) (s : Server ω) :
    Gone ((adbiMalloc ops size >>= y) s) ∨ (adbiMalloc ops size >>= y) s = y () s := by
  cases found : ops.allocates size s.rest with
  | false =>
    left
    simp only [adbiMalloc, run_bind, run_get, found, Bool.not_false, if_true, run_throw]
    exact gone_broken
  | true =>
    right
    simp only [adbiMalloc, run_bind, run_get, found, Bool.not_true, Bool.false_eq_true,
      if_false, run_pure]

theorem change_cases (ops : Operations ω) (f : ω → ω) (s : Server ω) :
    Gone ((change ops f >>= y) s) ∨ (change ops f >>= y) s = y () { s with rest := f s.rest } := by
  rw [change, bind_assoc, run_bind, run_modify]
  exact returns_cases ops _

theorem call_cases (ops : Operations ω) (f : ω → α × ω) (s : Server ω) {y : α → Handler ω Unit} :
    Gone ((call ops f >>= y) s) ∨
    (call ops f >>= y) s = y (f s.rest).1 { s with rest := (f s.rest).2 } := by
  simp only [call, bind_assoc, pure_bind]
  exact returns_cases (y := fun _ => y (f s.rest).1) ops { s with rest := (f s.rest).2 }

/-- The tracing flag is set, or is as it should be. -/
theorem setTracing_cases (ops : Operations ω) (state : Bool) (s : Server ω) :
    Gone ((stateTracingSet ops state >>= y) s) ∨ (stateTracingSet ops state >>= y) s =
      y () { s with
        tracing := (setTracing ops state (s.tracing, s.rest)).1
        rest := (setTracing ops state (s.tracing, s.rest)).2 } := by
  by_cases same : s.tracing = state
  · right
    simp only [stateTracingSet, setTracing, run_bind, run_get, if_pos same]
    rfl
  · simp only [stateTracingSet, setTracing, run_bind (get : Handler ω (Server ω)), run_get,
      if_neg same, bind_assoc]
    exact returns_cases ops
      ⟨state, if state then ops.processContinueAll s.rest else ops.processStopAll s.rest, s.buffer⟩

end Calls

section Commands

variable {s : Server ω} {pid iid n : Int} (filled : Filled [] s)
include filled

private theorem start_replies (t : Bool) (w : ω) (kind : String) (message : CString) :
    Replies request kind [] t w (say request kind message { s with tracing := t, rest := w }) :=
  replies_say (s := { s with tracing := t, rest := w }) ⟨filled.buffer, filled.fine⟩ message

omit filled in
theorem handled_of (kind : String) (puts : List Put) {command : Command} {outcome : Outcome}
    {t : Bool} {w : ω}
    {r : EStateM.Result Exit (Server ω) Unit}
    (result : direct ops command (s.tracing, s.rest) = (outcome, t, w))
    (replies : Replies request kind puts t w r) (shows_ : Shows command kind puts outcome) :
    Handled ops request command s r := by
  rw [Handled, result]
  exact .inr ⟨kind, puts, replies, shows_⟩

/-- A handler that refuses. -/
private theorem handled_refused {command : Command} {t : Bool} {w : ω}
    {r : EStateM.Result Exit (Server ω) Unit}
    (result : direct ops command (s.tracing, s.rest) = (.refused, t, w))
    (ran : ∃ message, r = say request "FAIL" message { s with tracing := t, rest := w }) :
    Handled ops request command s r := by
  obtain ⟨message, rfl⟩ := ran
  exact handled_of _ _ result (start_replies filled _ _ _ _) rfl

/-- A handler that has done its work, and says no more. -/
private theorem handled_done {command : Command} {t : Bool} {w : ω}
    {r : EStateM.Result Exit (Server ω) Unit}
    (result : direct ops command (s.tracing, s.rest) = (.done, t, w))
    (packet : ∀ elements, ∃ packet, command.reply elements = .ok (.packet packet))
    (ran : ∃ message, r = say request "OKAY" message { s with tracing := t, rest := w }) :
    Handled ops request command s r := by
  obtain ⟨message, rfl⟩ := ran
  exact handled_of _ _ result (start_replies filled _ _ _ _) ⟨rfl, packet⟩

/-- A handler that says whether its attempt succeeded. -/
private theorem handled_attempt {command : Command} {succeeded : Bool} {t : Bool} {w : ω}
    {r : EStateM.Result Exit (Server ω) Unit}
    (result : direct ops command (s.tracing, s.rest) = attempt succeeded (t, w))
    (packet : ∀ elements, ∃ packet, command.reply elements = .ok (.packet packet))
    (ran : ∃ message, r = say request (if succeeded then "OKAY" else "FAIL") message
      { s with tracing := t, rest := w }) :
    Handled ops request command s r := by
  cases succeeded with
  | true => exact handled_done filled result packet ran
  | false => exact handled_refused filled result ran

theorem handled_ping : Handled ops request .ping s (handlePING request s) :=
  handled_done filled rfl (fun _ => ⟨_, rfl⟩) ⟨_, rfl⟩

theorem handled_quit : Handled ops request .quit s (handleQUIT ops request s) := by
  rw [handleQUIT]
  refine handled_step (change_cases ops _ s) ?_
  exact handled_done filled rfl (fun _ => ⟨_, rfl⟩) ⟨_, rfl⟩

theorem handled_loglevel {level : Int} (delivered : Delivered request "LLEV" [putU32 "loglevel" level]) :
    Handled ops request (.loglevel level) s (handleLLEV ops request s) := by
  simp only [handleLLEV]
  rw [run_bind, readU32_delivered delivered List.mem_cons_self]
  refine handled_step (change_cases ops _ s) ?_
  exact handled_done filled rfl (fun _ => ⟨_, rfl⟩) ⟨_, rfl⟩

theorem handled_attach (delivered : Delivered request "ATTC" [putU32 "pid" pid]) :
    Handled ops request (.attach pid) s (handleATTC ops request s) := by
  simp only [handleATTC]
  rw [run_bind, readU32_delivered delivered List.mem_cons_self]
  refine handled_step (call_cases ops (ops.processAttach s.tracing (word pid)) s) ?_
  refine handled_attempt filled rfl (fun _ => ⟨_, rfl⟩) ?_
  cases attached : (ops.processAttach s.tracing (word pid) s.rest).1 with
  | true => exact ⟨_, rfl⟩
  | false => exact ⟨_, rfl⟩

omit filled in
/-- The loop over the arguments. -/
private theorem readArgv_delivered {args : List CString} {elements : List Client.Element}
    (delivered : Delivered request "SPWN" elements)
    {slots : Nat} {later : List CString} {i : Nat} (room : i + later.length ≤ slots)
    (rest : args.drop i = later)
    (among : ∀ j, ∀ inside : j < args.length, putStr (numbered "argv" j) args[j] ∈ elements)
    (s : Server ω) :
    readArgv request slots later.length i s = .error .exhausted s ∨
    readArgv request slots later.length i s = .ok later s := by
  induction later generalizing i with
  | nil => exact .inr rfl
  | cons arg later ih =>
    have inside : i < args.length := by
      by_contra outside
      rw [List.drop_of_length_le (by omega)] at rest
      cases rest
    rw [List.drop_eq_getElem_cons inside, List.cons.injEq] at rest
    obtain ⟨rfl, rest⟩ := rest
    rw [List.length_cons] at room
    simp only [List.length_cons, readArgv, run_bind]
    rcases indexed_cases ω (show 0#8 ∉ text "argv" by decide) i with long | ⟨named, -⟩
    · exact .inl (by rw [long])
    · simp only [named, if_pos (show i < slots by omega), run_bind,
        readStr_delivered delivered (among i inside)]
      rcases ih (i := i + 1) (by omega) rest with full | read
      · exact .inl (by rw [full])
      · exact .inr (by rw [read]; rfl)

theorem handled_spawn {args : List CString}
    (delivered : Delivered request "SPWN" (Command.spawn args).payload.2)
    (few : args.length < 2 ^ 30 - 1) :
    Handled ops request (.spawn args) s (handleSPWN ops request s) := by
  have count : (word args.length).toNat = args.length := by
    rw [word, BitVec.ofInt_natCast, BitVec.toNat_ofNat]
    omega
  have slots : (args.length + 1) % 2 ^ 30 = args.length + 1 := Nat.mod_eq_of_lt (by omega)
  have argc : putU32 "argc" args.length ∈ (Command.spawn args).payload.2 := List.mem_cons_self
  have reads := readArgv_delivered delivered (show 0 + args.length ≤ args.length + 1 by omega)
    List.drop_zero
    (fun j inside => List.mem_cons_of_mem _ (List.mem_mapIdx.mpr ⟨j, inside, rfl⟩)) s
  simp only [handleSPWN]
  rw [run_bind, readU32_delivered delivered argc]
  simp only [count, slots]
  refine handled_step (adbiMalloc_cases ops _ s) ?_
  rw [run_bind]
  rcases reads with full | read
  · rw [full]
    exact .inl (gone_exhausted ⟨s, rfl⟩)
  · rw [read]
    simp only [if_pos (Nat.lt_succ_self args.length)]
    refine handled_step (call_cases ops (ops.processSpawn s.tracing args) s) ?_
    refine handled_attempt filled rfl (fun _ => ⟨_, rfl⟩) ?_
    cases spawned : (ops.processSpawn s.tracing args s.rest).1 with
    | some pid => exact ⟨_, rfl⟩
    | none => exact ⟨_, rfl⟩

omit filled in
/-- What is said is the end of the handler. -/
private theorem say_bind {kind : String} {message : CString} {f : Unit → Handler ω Unit}
    (built : Built s.buffer) :
    (say request kind message >>= f) s = say request kind message s := by
  rw [run_bind]
  rcases say_cases request kind message built with ⟨s', full⟩ | ⟨said, -⟩
  · rw [full]
  · rw [said]

omit filled in
private theorem setTracing_same (state : Bool) (w : ω) :
    setTracing ops state (state, w) = (state, w) := if_pos rfl

theorem handled_start : Handled ops request .start s (handleSTRT ops request s) := by
  cases running : s.tracing with
  | true =>
    refine handled_refused filled (by rw [direct, running]; rfl)
      ⟨text "Tracees are already running.", ?_⟩
    simp only [handleSTRT, run_bind (get : Handler ω (Server ω)), run_get, running, if_true]
    exact (say_bind filled.fine.built).trans (by rw [← running])
  | false =>
    simp only [handleSTRT, run_bind (get : Handler ω (Server ω)), run_get, running,
      Bool.false_eq_true, if_false]
    refine handled_step (setTracing_cases ops true s) ?_
    exact handled_done filled (by rw [direct, running]; rfl) (fun _ => ⟨_, rfl⟩)
      ⟨text "All inferiors are now running.", rfl⟩

theorem handled_stop : Handled ops request .stop s (handleSTOP ops request s) := by
  cases running : s.tracing with
  | false =>
    refine handled_refused filled (by rw [direct, running]; rfl)
      ⟨text "Tracees are already stopped.", ?_⟩
    simp only [handleSTOP, run_bind (get : Handler ω (Server ω)), run_get, running,
      Bool.not_false, if_true]
    exact (say_bind filled.fine.built).trans (by rw [← running])
  | true =>
    simp only [handleSTOP, run_bind (get : Handler ω (Server ω)), run_get, running, Bool.not_true,
      Bool.false_eq_true, if_false]
    refine handled_step (setTracing_cases ops false s) ?_
    exact handled_done filled (by rw [direct, running]; rfl) (fun _ => ⟨_, rfl⟩)
      ⟨text "All inferiors are now stopped.", rfl⟩

omit filled in
/-- What the handlers for one process find. -/
private theorem run_withProcess_some {message : CString} {rest : ω} {p : Word}
    (found : ops.processGet p s.rest = some rest) :
    withProcess ops request p message s = .ok () { s with rest := rest } := by
  simp only [withProcess, run_bind, run_get, found]
  rfl

omit filled in
private theorem run_withProcess_none {message : CString} {p : Word} (built : Built s.buffer)
    (missing : ops.processGet p s.rest = none)
    {f : Unit → Handler ω Unit} : (withProcess ops request p message >>= f) s =
      say request "FAIL" message s := by
  have fails : withProcess ops request p message s = say request "FAIL" message s := by
    simp only [withProcess, run_bind (get : Handler ω (Server ω)), run_get, missing]
    exact say_bind built
  rw [run_bind, fails]
  rcases say_cases request "FAIL" message built with ⟨s', full⟩ | ⟨said, -⟩
  · rw [full]
  · rw [said]

theorem handled_detach (delivered : Delivered request "DETC" [putU32 "pid" pid]) :
    Handled ops request (.detach pid) s (handleDETC ops request s) := by
  cases found : ops.processGet (word pid) s.rest with
  | none =>
    refine handled_refused filled (by rw [direct, onProcess, found]) ?_
    simp only [handleDETC]
    rw [run_bind, readU32_delivered delivered List.mem_cons_self]
    exact ⟨_, run_withProcess_none filled.fine.built found⟩
  | some rest =>
    simp only [handleDETC]
    rw [run_bind, readU32_delivered delivered List.mem_cons_self]
    simp only
    rw [run_bind, run_withProcess_some found]
    refine handled_step (change_cases ops _ _) (handled_step (change_cases ops _ _) ?_)
    exact handled_done filled (by rw [direct, onProcess, found]) (fun _ => ⟨_, rfl⟩) ⟨_, rfl⟩

theorem handled_kill (delivered : Delivered request "KILL" [putU32 "pid" pid]) :
    Handled ops request (.kill pid) s (handleKILL ops request s) := by
  cases found : ops.processGet (word pid) s.rest with
  | none =>
    refine handled_refused filled (by rw [direct, onProcess, found]) ?_
    simp only [handleKILL]
    rw [run_bind, readU32_delivered delivered List.mem_cons_self]
    exact ⟨_, run_withProcess_none filled.fine.built found⟩
  | some rest =>
    simp only [handleKILL]
    rw [run_bind, readU32_delivered delivered List.mem_cons_self]
    simp only
    rw [run_bind, run_withProcess_some found]
    refine handled_step (change_cases ops _ _) (handled_step (change_cases ops _ _) ?_)
    exact handled_done filled (by rw [direct, onProcess, found]) (fun _ => ⟨_, rfl⟩) ⟨_, rfl⟩

/-- What a loading answers, from where the tracees are stopped. -/
private theorem handled_loading (path : CString) (stopped : ω) (f : Unit → Handler ω Unit)
    (result : setTracing ops false (s.tracing, s.rest) = (false, stopped)) :
    Handled ops request (.injectableLoad path) s
      ((call ops (ops.injectableLoad path) >>= fun loaded => match loaded with
        | .ok injectable => okay request (text "Loaded injectable " ++
          decimal injectable.id.toNat ++ text " (" ++
            injectable.name ++ text ") from " ++ path ++ text ".") >>= f
        | .error whynot => fail request (text "Error loading injectable from " ++ path ++
          text ": " ++ whynot ++ text ".") >>= f)
        { s with tracing := false, rest := stopped }) := by
  refine handled_step (call_cases ops (ops.injectableLoad path) _) ?_
  refine handled_attempt filled (by rw [direct, result]) (fun _ => ⟨_, rfl⟩) ?_
  cases loaded : (ops.injectableLoad path stopped).1 with
  | ok injectable => exact ⟨_, say_bind filled.fine.built⟩
  | error whynot => exact ⟨_, say_bind filled.fine.built⟩

theorem handled_injectableLoad {path : CString}
    (delivered : Delivered request "INJL" [putStr (text "path") path]) :
    Handled ops request (.injectableLoad path) s (handleINJL ops request s) := by
  obtain ⟨tracing, rest, buffer⟩ := s
  cases tracing with
  | true =>
    simp only [handleINJL, run_bind (get : Handler ω (Server ω)), run_get, if_true]
    refine handled_step (setTracing_cases ops false _) ?_
    rw [run_bind, readStr_delivered delivered List.mem_cons_self]
    exact handled_loading filled path (ops.processStopAll rest) _ rfl
  | false =>
    simp only [handleINJL, run_bind (get : Handler ω (Server ω)), run_get, Bool.false_eq_true, if_false]
    rw [run_bind, readStr_delivered delivered List.mem_cons_self]
    exact handled_loading filled path rest _ rfl

theorem handled_injectableUnload (delivered : Delivered request "INJU" [putU32 "iid" iid]) :
    Handled ops request (.injectableUnload iid) s (handleINJU ops request s) := by
  obtain ⟨tracing, rest, buffer⟩ := s
  simp only [handleINJU]
  rw [run_bind, readU32_delivered delivered List.mem_cons_self]
  simp only
  rw [run_bind, run_get]
  cases tracing with
  | true =>
    simp only [if_true]
    refine handled_step (setTracing_cases ops false _)
      (handled_step (call_cases ops (ops.injectableUnload (word iid)) _) ?_)
    refine handled_step (setTracing_cases ops true _) (handled_attempt filled rfl (fun _ => ⟨_, rfl⟩) ?_)
    cases unloaded : (ops.injectableUnload (word iid) (setTracing ops false (true, rest)).2).1 with
    | ok _ => exact ⟨_, rfl⟩
    | error _ => exact ⟨_, rfl⟩
  | false =>
    simp only [Bool.false_eq_true, if_false]
    refine handled_step (call_cases ops (ops.injectableUnload (word iid)) _) ?_
    refine handled_attempt filled (by rw [direct, setTracing_same, setTracing_same])
      (fun _ => ⟨_, rfl⟩) ?_
    cases unloaded : (ops.injectableUnload (word iid) rest).1 with
    | ok _ => exact ⟨_, rfl⟩
    | error _ => exact ⟨_, rfl⟩

end Commands

/-! ## Listings -/

/-- How a listing is sent and read: the fields of an entry, those that the client asks for, the field
with the number of entries, and the tuple that an entry comes to. -/
structure Table (α : Type) where
  columns : Columns α
  picked : Columns α
  count : String
  row : Nat → α → List Value
  apart : Apart columns
  nonempty : columns ≠ []
  among : ∀ c ∈ picked, c ∈ columns
  counted : Plain (text count)
  unnumbered : bracket ∉ text count ∧ text "msg" ≠ text count
  tuple : ∀ i a, picked.map (fun c => (c.2 i a).value) = row i a

/-- The number of entries in a response. -/
def Table.total (table : Table α) (entries : List α) : Put :=
  (Cell.u32 (BitVec.ofNat 32 entries.length)).put (text table.count)

private theorem length_tablePuts (columns : Columns α) (entries : List α) :
    (tablePuts columns entries).length = entries.length * columns.length := by
  simp [tablePuts, rowPuts, List.length_flatMap]

/-- The client has the listing back. -/
theorem Table.read (table : Table α) {entries : List α} (few : entries.length < 2 ^ 32)
    (extra : List Put)
    (unnumbered : ∀ p ∈ extra, bracket ∉ p.value.name ∧ p.value.name ≠ text table.count)
    (message : CString) :
    rows ((tablePuts table.columns entries ++ extra ++ [table.total entries] ++
      [messagePut message]).map Put.value) table.count
        (table.picked.map Prod.fst) = .ok (entries.zipIdx.map fun e => table.row e.2 e.1) := by
  have others : ∀ p ∈ extra ++ [table.total entries] ++ [messagePut message],
      bracket ∉ p.value.name := by
    intro p member
    simp only [List.mem_append, List.mem_singleton] at member
    rcases member with (early | rfl) | rfl
    · exact (unnumbered p early).1
    · exact table.unnumbered.1
    · exact show bracket ∉ text "msg" by decide
  have found : (extra ++ [table.total entries] ++ [messagePut message]).find? (fun p =>
      p.value.name = text table.count) =
      some (table.total entries) := by
    have early : extra.find? (fun p => p.value.name = text table.count) = none :=
      List.find?_eq_none.mpr fun p member => by simpa using (unnumbered p member).2
    have here : [table.total entries].find? (fun p => p.value.name = text table.count) =
        some (table.total entries) := by
      simp [Table.total]
    rw [List.append_assoc, List.find?_append, early, List.find?_append, here]
    rfl
  have read := rows_read table.apart table.among few others table.unnumbered.1 found
  simp only [table.tuple] at read
  simpa only [List.append_assoc] using read

section Tables

variable {s : Server ω} {table : Table α} {entries : List α} {entry : Nat → α → Handler ω Unit}
  {y : Unit → Handler ω Unit}

/-- The loop over the entries comes to its end, if there is room for them. -/
theorem report_cases (table : Table α) (filled : Filled [] s)
    (each : ∀ i, ∀ a ∈ entries, Adds (entry i a) (rowPuts table.columns i a)) :
    (∃ s', (report entry entries >>= y) s = .error .exhausted s') ∨
      ∃ s', (report entry entries >>= y) s = y () s' ∧ Filled (tablePuts table.columns entries) s' ∧
      s'.tracing = s.tracing ∧
        s'.rest = s.rest ∧ entries.length < 2 ^ 32 := by
  have empty : s.buffer = [] := filled.buffer
  rcases adds_report each s filled.fine with ⟨s', full⟩ | ⟨added, fine⟩
  · exact .inl ⟨s', by rw [run_bind, full]⟩
  · refine .inr ⟨{ s with buffer := s.buffer ++ (tablePuts table.columns entries).map Put.element },
      by rw [run_bind, added],
      ⟨by rw [empty, List.nil_append], fine⟩, rfl, rfl, ?_⟩
    have many := count_le_bytes fine.built
    have bytes := fine.fits
    have width : 0 < table.columns.length := List.length_pos_iff.mpr table.nonempty
    have least := Nat.le_mul_of_pos_right entries.length width
    rw [empty, List.nil_append, List.length_map, length_tablePuts] at many
    rw [empty, List.nil_append] at bytes
    omega

/-- What follows a listing: the number of entries and a message. -/
theorem replies_counted {puts : List Put} (filled : Filled puts s) (table : Table α)
    (entries : List α) {request : Request} (message : CString) :
    Replies request "OKAY" (puts ++ [table.total entries]) s.tracing s.rest
      ((put (payloadPutU32 (text table.count) (BitVec.ofNat 32 entries.length)) >>= fun _ =>
        okay request message) s) := by
  refine replies_adds filled (adds_cell table.counted (.u32 (BitVec.ofNat 32 entries.length))
    trivial) fun s' now tracing rest => ?_
  rw [← tracing, ← rest]
  exact replies_say now message

/-- The reference to the process is given back before the message. -/
theorem replies_changed {puts : List Put} (filled : Filled puts s) (f : ω → ω) {request : Request}
    (message : CString) {t : Bool} {w : ω}
    (tracing : s.tracing = t) (rest : f s.rest = w) :
    Replies request "OKAY" puts t w ((change ops f >>= fun _ => okay request message) s) := by
  subst tracing rest
  rcases change_cases (y := fun _ => okay request message) ops f s with gone | ran
  · exact .inl gone
  · rw [ran]
    exact replies_say (s := { s with rest := f s.rest }) ⟨filled.buffer, filled.fine⟩ message

/-- The handlers that list entries, with what they do behind the listing. -/
theorem handled_listing (table : Table α) {command : Command} {s₀ : Server ω} {t : Bool} {w : ω}
    (listing : List (List Value)) (filled : Filled [] s)
    (result : direct ops command (s₀.tracing, s₀.rest) = (.listing listing, t, w))
    (each : ∀ i, ∀ a ∈ entries, Adds (entry i a) (rowPuts table.columns i a))
    (reply : ∀ elements, rows elements table.count (table.picked.map Prod.fst) =
      .ok (entries.zipIdx.map fun e => table.row e.2 e.1) →
      command.reply elements = .ok (.listing listing))
    (tail : ∀ s', Filled (tablePuts table.columns entries) s' → s'.tracing = s.tracing →
      s'.rest = s.rest →
      Replies request "OKAY" (tablePuts table.columns entries ++ [table.total entries]) t w (y () s')) :
    Handled ops request command s₀ ((report entry entries >>= y) s) := by
  rcases report_cases table filled each with gone | ⟨s', ran, listed, tracing, rest, few⟩
  · exact .inl (gone_exhausted gone)
  · rw [ran]
    refine handled_of _ _ result (tail s' listed tracing rest) ⟨rfl, fun message => reply _ ?_⟩
    have read := table.read few [] (by simp) message
    rwa [List.append_nil] at read

/-- Tuples that do not depend on the number of their entry. -/
theorem map_zipIdx {β : Type} (f : α → β) (l : List α) : (l.zipIdx.map fun e => f e.1) = l.map f := by
  have split : (fun e : α × Nat => f e.1) = f ∘ Prod.fst := rfl
  rw [split, ← List.map_map, List.zipIdx_map_fst]

end Tables

/-! ## The listings of the server -/

private def processTable : Table Word where
  columns := [("procv", fun _ pid => .u32 pid)]
  picked := [("procv", fun _ pid => .u32 pid)]
  count := "procc"
  row _ pid := [.number pid.toNat]
  apart := ⟨by simp; decide, by simp⟩
  nonempty := by simp
  among := by simp
  counted := ⟨by decide, by decide⟩
  unnumbered := by decide
  tuple := by simp [Cell.value]

private def injectableColumns : Columns Injectable :=
  [("injid", fun _ injectable => .u32 injectable.id),
    ("injfn", fun _ injectable => .str (some injectable.filename)),
    ("injtp", fun _ injectable =>
      .str (some (text (if injectable.library then "library" else "handler")))),
    ("injnm", fun _ injectable => .str (some injectable.name)),
    ("injrc", fun _ injectable => .u32 injectable.references),
    ("injcm", fun _ injectable => .str injectable.comment)]

private def injectableTable : Table Injectable where
  columns := injectableColumns
  picked :=
    [("injid", fun _ injectable => .u32 injectable.id),
      ("injfn", fun _ injectable => .str (some injectable.filename)),
      ("injrc", fun _ injectable => .u32 injectable.references),
      ("injtp", fun _ injectable =>
        .str (some (text (if injectable.library then "library" else "handler")))),
      ("injnm", fun _ injectable => .str (some injectable.name)),
      ("injcm", fun _ injectable => .str injectable.comment)]
  count := "injc"
  row _ injectable := injectableRow injectable
  apart := ⟨by simp [injectableColumns]; decide, by simp [injectableColumns]; decide⟩
  nonempty := by simp [injectableColumns]
  among := by simp [injectableColumns]
  counted := ⟨by decide, by decide⟩
  unnumbered := by decide
  tuple := by simp [Cell.value, injectableRow]

private def symbolTable : Table (CString × Word) where
  columns := [("symnm", fun _ symbol => .str (some symbol.1)), ("symad", fun _ symbol => .u32 symbol.2)]
  picked := [("symad", fun _ symbol => .u32 symbol.2), ("symnm", fun _ symbol => .str (some symbol.1))]
  count := "symc"
  row _ symbol := symbolRow symbol
  apart := ⟨by simp; decide, by simp; decide⟩
  nonempty := by simp
  among := by simp
  counted := ⟨by decide, by decide⟩
  unnumbered := by decide
  tuple := by simp [Cell.value, symbolRow]

private def tracepointTable : Table (Word × Word) where
  columns := [("tpta", fun _ tracepoint => .u32 tracepoint.1),
    ("tpth", fun _ tracepoint => .i32 tracepoint.2)]
  picked := [("tpta", fun _ tracepoint => .u32 tracepoint.1),
    ("tpth", fun _ tracepoint => .i32 tracepoint.2)]
  count := "tptc"
  row _ tracepoint := tracepointRow tracepoint
  apart := ⟨by simp; decide, by simp; decide⟩
  nonempty := by simp
  among := by simp
  counted := ⟨by decide, by decide⟩
  unnumbered := by decide
  tuple := by simp [Cell.value, tracepointRow]

private def entryTable : Table (CString × Bool) where
  columns := [("entv", fun _ entry => .str (some entry.1)),
    ("entd", fun _ entry => .u32 (if entry.2 then 1#32 else 0#32))]
  picked := [("entv", fun _ entry => .str (some entry.1)),
    ("entd", fun _ entry => .u32 (if entry.2 then 1#32 else 0#32))]
  count := "entc"
  row _ entry := [.text entry.1, .number (if entry.2 then 1#32 else 0#32 : Word).toNat]
  apart := ⟨by simp; decide, by simp; decide⟩
  nonempty := by simp
  among := by simp
  counted := ⟨by decide, by decide⟩
  unnumbered := by decide
  tuple := by simp [Cell.value]

private def regionColumns : Columns Region :=
  [("seglo", fun _ region => .u64 region.low), ("seghi", fun _ region => .u64 region.high),
    ("segtype", fun _ region => .str (some (text region.type))),
    ("segfile", fun _ region => .str (some (region.file.getD []))),
    ("segoff", fun _ region => .u32 (if region.file.isSome then region.offset else 0#32))]

private def regionTable : Table Region where
  columns := regionColumns
  picked := regionColumns
  count := "segc"
  row _ region := regionRow region
  apart := ⟨by simp [regionColumns]; decide, by simp [regionColumns]; decide⟩
  nonempty := by simp [regionColumns]
  among := fun _ member => member
  counted := ⟨by decide, by decide⟩
  unnumbered := by decide
  tuple := by simp [regionColumns, Cell.value, regionRow]

private def wordTable (data : List (BitVec 8)) : Table Unit where
  columns := [("word", fun i _ => .u32 (wordAt data i))]
  picked := [("word", fun i _ => .u32 (wordAt data i))]
  count := "size"
  row i _ := [.number (wordAt data i).toNat]
  apart := ⟨by simp; decide, by simp⟩
  nonempty := by simp
  among := by simp
  counted := ⟨by decide, by decide⟩
  unnumbered := by decide
  tuple := by simp [Cell.value]

private theorem ls_entry (entry : CString × Bool) :
    Remote.lsEntry [.text entry.1, .number (if entry.2 then 1#32 else 0#32 : Word).toNat] =
      .ok (entryRow entry) := by
  obtain ⟨name, directory⟩ := entry
  cases directory <;> rfl

private theorem bytes_word (b0 b1 b2 b3 : BitVec 8) : littleEndian (b3 ++ b2 ++ b1 ++ b0 : Word) =
    [b0, b1, b2, b3] := by
  rw [littleEndian_word]
  simp only [List.cons.injEq, and_true]
  refine ⟨?_, ?_, ?_, ?_⟩
  all_goals
    ext i inside
    simp only [BitVec.getElem_extractLsb', BitVec.getLsbD_append]
    grind

/-- The bytes of the words are the data, but for an odd end. -/
private theorem words_bytes (data : List (BitVec 8)) {n : Nat} (whole : 4 * n ≤ data.length) :
    (List.range n).flatMap (fun i => littleEndian (wordAt data i)) = data.take (4 * n) := by
  induction n with
  | zero => rfl
  | succ n ih =>
    have four : (data.drop (4 * n)).take 4 = littleEndian (wordAt data n) := by
      rw [wordAt, bytes_word]
      refine List.ext_getElem (by simp; omega) fun i inside _ => ?_
      have small : i < 4 := by simp at inside; omega
      have at_ : 4 * n + i < data.length := by omega
      rw [List.getElem_take, List.getElem_drop]
      interval_cases i <;> simp [show 4 * n < data.length by omega,
        show 4 * n + 1 < data.length by omega,
        show 4 * n + 2 < data.length by omega, show 4 * n + 3 < data.length by omega]
    rw [List.range_succ, List.flatMap_append, ih (by omega), Nat.mul_succ, List.take_add, four]
    simp

/-- The bytes that the client makes of the words. -/
private theorem tobytes_words (data : List (BitVec 8)) {n : Nat} (whole : 4 * n ≤ data.length) :
    (((List.replicate n ()).zipIdx.map fun e => [Value.number (wordAt data e.2).toNat]).mapM
      Remote.tobytes).map List.flatten =
      .ok (data.take (4 * n)) := by
  have each : ∀ e ∈ (List.replicate n ()).zipIdx, Remote.tobytes [.number (wordAt data e.2).toNat] =
      .ok (littleEndian (wordAt data e.2)) := by
    intro e _
    rw [Remote.tobytes, BitVec.ofInt_natCast, BitVec.ofNat_toNat, BitVec.setWidth_eq]
  have indices : (List.replicate n ()).zipIdx.map (fun e => littleEndian (wordAt data e.2)) =
      (List.range n).map fun i => littleEndian (wordAt data i) := by
    have split : (fun e : Unit × Nat => littleEndian (wordAt data e.2)) =
        (fun i => littleEndian (wordAt data i)) ∘ Prod.snd := rfl
    rw [split, ← List.map_map, List.zipIdx_map_snd, List.length_replicate, List.range_eq_range']
  have mapped : (List.replicate n ()).zipIdx.mapM (Remote.tobytes ∘ fun e =>
      [Value.number (wordAt data e.2).toNat]) =
      .ok ((List.replicate n ()).zipIdx.map fun e => littleEndian (wordAt data e.2)) := mapM_except each
  rw [List.mapM_map, mapped, indices, ← words_bytes data whole]
  rfl

section Listings

variable {s : Server ω} {pid iid : Int} (filled : Filled [] s)
include filled

/-- A listing with nothing but its number of entries and a message behind it. -/
private theorem handled_simple (table : Table α) {command : Command} {entries : List α}
    {entry : Nat → α → Handler ω Unit} (row : α → List Value)
    {message : CString} (result : direct ops command (s.tracing, s.rest) =
      (.listing (entries.map row), s.tracing, s.rest))
    (each : ∀ i, ∀ a ∈ entries, Adds (entry i a) (rowPuts table.columns i a))
    (plain : ∀ i a, table.row i a = row a)
    (reply : ∀ elements, command.reply elements =
      (rows elements table.count (table.picked.map Prod.fst)).map .listing) :
    Handled ops request command s
      ((report entry entries >>= fun _ =>
        put (payloadPutU32 (text table.count) (BitVec.ofNat 32 entries.length)) >>= fun _ =>
        okay request message) s) := by
  refine handled_listing table _ filled result each (fun elements read => ?_) fun s' now
    tracing rest => ?_
  · simp only [plain, map_zipIdx] at read
    rw [reply, read]
    rfl
  · rw [← tracing, ← rest]
    exact replies_counted now table entries message

theorem handled_processes : Handled ops request .processes s (handlePROC ops request s) := by
  refine handled_simple filled processTable (fun pid => [.number pid.toNat]) rfl (fun i pid _ => ?_)
    (fun _ _ => rfl) (fun _ => rfl)
  exact adds_indexed (by decide) i (.u32 pid) trivial

theorem handled_injectables (fits : Fits ops) :
    Handled ops request .injectables s (handleINJQ ops request s) := by
  refine handled_simple filled injectableTable injectableRow rfl (fun i injectable member => ?_)
    (fun _ _ => rfl) (fun _ => rfl)
  have strings := fits.injectables _ injectable member
  have comment : (injectable.comment.getD []).length + 1 < 2 ^ 32 := by
    rcases named : injectable.comment with _ | comment
    · decide
    · exact strings.comment comment named
  have kind : (text (if injectable.library then "library" else "handler")).length + 1 < 2 ^ 32 := by
    cases injectable.library <;> decide
  refine adds_indexed_then (by decide) i (.u32 injectable.id) trivial ?_
  refine adds_indexed_then (by decide) i (.str (some injectable.filename)) strings.filename ?_
  refine adds_indexed_then (by decide) i
    (.str (some (text (if injectable.library then "library" else "handler")))) kind ?_
  refine adds_indexed_then (by decide) i (.str (some injectable.name)) strings.name ?_
  refine adds_indexed_then (by decide) i (.u32 injectable.references) trivial ?_
  exact adds_indexed (by decide) i (.str injectable.comment) comment

omit filled in
/-- `injectable_get` in a handler. -/
private theorem run_withInjectable_some {injectable : Injectable}
    (found : ops.injectableGet (word iid) s.rest = some injectable) :
    withInjectable ops request (word iid) s = .ok injectable s := by
  simp only [withInjectable, run_bind, run_get, found]
  rfl

omit filled in
private theorem run_withInjectable_none {f : Injectable → Handler ω Unit} (built : Built s.buffer)
    (missing : ops.injectableGet (word iid) s.rest = none) :
    ∃ message, (withInjectable ops request (word iid) >>= f) s = say request "FAIL" message s := by
  refine ⟨text "No such injectable: " ++ decimal (word iid).toNat ++ text ".", ?_⟩
  simp only [withInjectable, run_bind, run_get, missing]
  rcases say_cases request "FAIL" (text "No such injectable: " ++ decimal (word iid).toNat ++
    text ".") built with ⟨s', full⟩ | ⟨said, -⟩
  · simp only [fail, full]
  · simp only [fail, said]

private theorem handled_symbols (fits : Fits ops) {type : String} {command : Command}
    {symbols : Injectable → List (CString × Word)}
    (delivered : Delivered request type [putU32 "iid" iid])
    (result : direct ops command (s.tracing, s.rest) =
      ofInjectable ops iid (fun injectable => (symbols injectable).map symbolRow) (s.tracing, s.rest))
    (reply : ∀ elements, command.reply elements = (rows elements "symc" ["symad", "symnm"]).map .listing)
    (short : ∀ injectable, Injectable.Fits injectable →
      ∀ symbol ∈ symbols injectable, symbol.1.length + 1 < 2 ^ 32) :
    Handled ops request command s (handleSymbols ops request symbols s) := by
  rw [ofInjectable] at result
  cases found : ops.injectableGet (word iid) s.rest with
  | none =>
    refine handled_refused filled (t := s.tracing) (w := s.rest) (by rw [result, found]) ?_
    simp only [handleSymbols]
    rw [run_bind, readU32_delivered delivered List.mem_cons_self]
    exact run_withInjectable_none filled.fine.built found
  | some injectable =>
    rw [found] at result
    simp only [handleSymbols, run_bind (readU32 request "iid"),
      readU32_delivered delivered List.mem_cons_self]
    rw [run_bind, run_withInjectable_some found]
    refine handled_simple filled symbolTable symbolRow result (fun i symbol member => ?_)
      (fun _ _ => rfl) reply
    refine adds_indexed_then (by decide) i (.str (some symbol.1))
      (short injectable (fits.injectableGet _ _ _ found) symbol member) ?_
    exact adds_indexed (by decide) i (.u32 symbol.2) trivial

theorem handled_exports (fits : Fits ops) (delivered : Delivered request "INJE" [putU32 "iid" iid]) :
    Handled ops request (.exports iid) s (handleINJE ops request s) :=
  handled_symbols filled fits delivered rfl (fun _ => rfl) fun _ strings => strings.exports

theorem handled_imports (fits : Fits ops) (delivered : Delivered request "INJI" [putU32 "iid" iid]) :
    Handled ops request (.imports iid) s (handleINJI ops request s) :=
  handled_symbols filled fits delivered rfl (fun _ => rfl) fun _ strings => strings.imports

theorem handled_adbi (fits : Fits ops) (delivered : Delivered request "INJA" [putU32 "iid" iid]) :
    Handled ops request (.adbi iid) s (handleINJA ops request s) :=
  handled_symbols filled fits delivered rfl (fun _ => rfl) fun _ strings => strings.adbi

theorem handled_tracepoints (delivered : Delivered request "INJT" [putU32 "iid" iid]) :
    Handled ops request (.tracepoints iid) s (handleINJT ops request s) := by
  cases found : ops.injectableGet (word iid) s.rest with
  | none =>
    refine handled_refused filled (t := s.tracing) (w := s.rest) (by rw [direct, ofInjectable, found]) ?_
    simp only [handleINJT]
    rw [run_bind, readU32_delivered delivered List.mem_cons_self]
    exact run_withInjectable_none filled.fine.built found
  | some injectable =>
    simp only [handleINJT, run_bind (readU32 request "iid"),
      readU32_delivered delivered List.mem_cons_self]
    rw [run_bind, run_withInjectable_some found]
    refine handled_simple filled tracepointTable tracepointRow (by rw [direct, ofInjectable, found])
      (fun i tracepoint _ => ?_)
      (fun _ _ => rfl) (fun _ => rfl)
    refine adds_indexed_then (by decide) i (.u32 tracepoint.1) trivial ?_
    exact adds_indexed (by decide) i (.i32 tracepoint.2) trivial

theorem handled_ls (fits : Fits ops) {path : CString}
    (delivered : Delivered request "LDIR" [putStr (text "path") path]) :
    Handled ops request (.ls path) s (handleLDIR ops request s) := by
  cases listed : ops.directory path s.rest with
  | none =>
    refine handled_refused filled (t := s.tracing) (w := s.rest) (by rw [direct, listed]) ?_
    simp only [handleLDIR, run_bind, readStr_delivered delivered List.mem_cons_self, run_get, listed]
    exact ⟨_, rfl⟩
  | some entries =>
    simp only [handleLDIR, run_bind (readStr request (text "path")),
      readStr_delivered delivered List.mem_cons_self]
    rw [run_bind, run_get]
    simp only [listed]
    refine handled_listing entryTable (entries.map entryRow) filled (by rw [direct, listed])
      (fun i entry member => ?_) (fun elements read => ?_)
      fun s' now tracing rest => ?_
    · have named := fits.directory _ _ _ listed entry member
      refine adds_indexed_then (by decide) i (.str (some entry.1)) named ?_
      exact adds_indexed (by decide) i (.u32 (if entry.2 then 1#32 else 0#32)) trivial
    · have listing : rows elements "entc" ["entv", "entd"] =
          .ok (entries.zipIdx.map fun e =>
            [.text e.1.1, .number (if e.1.2 then 1#32 else 0#32 : Word).toNat]) := read
      have mapped : (entries.zipIdx.map fun e =>
          [Value.text e.1.1, .number (if e.1.2 then 1#32 else 0#32 : Word).toNat]).mapM
          Remote.lsEntry = .ok (entries.map entryRow) := by
        rw [List.mapM_map, mapM_except (g := fun e => entryRow e.1) fun e _ => ls_entry e.1, map_zipIdx]
      rw [Command.reply, listing]
      exact congrArg (fun listed => listed >>= fun listed =>
        Except.ok (Remote.Reply.listing listed)) mapped
    · rw [← tracing, ← rest]
      exact replies_counted now entryTable entries _

theorem handled_explainAddress (fits : Fits ops) {address : Int}
    (delivered : Delivered request "ADDR" [putU32 "pid" pid, putU64 "address" address]) :
    Handled ops request (.explainAddress pid address) s (handleADDR ops request s) := by
  have first : putU32 "pid" pid ∈ [putU32 "pid" pid, putU64 "address" address] := List.mem_cons_self
  have second : putU64 "address" address ∈ [putU32 "pid" pid, putU64 "address" address] :=
    List.mem_cons_of_mem _ List.mem_cons_self
  cases found : ops.processGet (word pid) s.rest with
  | none =>
    refine handled_refused filled (by rw [direct, onProcess, found]) ?_
    simp only [handleADDR]
    rw [run_bind, readU32_delivered delivered first]
    simp only
    rw [run_bind, readU64_delivered delivered second]
    exact ⟨_, run_withProcess_none filled.fine.built found⟩
  | some rest =>
    simp only [handleADDR]
    rw [run_bind, readU32_delivered delivered first]
    simp only
    rw [run_bind, readU64_delivered delivered second]
    simp only
    rw [run_bind, run_withProcess_some found]
    simp only
    rw [run_bind, run_get]
    simp only
    have now : Filled [] { s with rest := rest } := ⟨filled.buffer, filled.fine⟩
    refine handled_of "OKAY" [(Cell.u64 (long address)).put (text "address"),
      (Cell.str (some (ops.strAddress (word pid) (long address) rest))).put (text "info")]
        (by rw [direct, onProcess, found]) ?_ ?_
    · refine replies_adds now (adds_cell ⟨by decide, by decide⟩ (.u64 (long address)) trivial)
        fun s₁ now₁ tracing₁ rest₁ => ?_
      refine replies_adds now₁ (adds_cell ⟨by decide,
        by decide⟩ (.str (some (ops.strAddress (word pid) (long address) rest)))
        (fits.strAddress _ _ _)) fun s₂ now₂ tracing₂ rest₂ => ?_
      exact replies_changed now₂ _ _ (tracing₂.trans tracing₁) (by rw [rest₂, rest₁])
    · refine ⟨rfl, fun _ => rfl, fun message => ?_⟩
      have other : (text "address" = text "info") = False := by decide
      simp [getField, Cell.put, Put.value, other]

theorem handled_memory (fits : Fits ops) (delivered : Delivered request "MAPS" [putU32 "pid" pid]) :
    Handled ops request (.memory pid) s (handleMAPS ops request s) := by
  cases found : ops.processGet (word pid) s.rest with
  | none =>
    refine handled_refused filled (by rw [direct, onProcess, found]) ?_
    simp only [handleMAPS]
    rw [run_bind, readU32_delivered delivered List.mem_cons_self]
    exact ⟨_, run_withProcess_none filled.fine.built found⟩
  | some rest =>
    simp only [handleMAPS]
    rw [run_bind, readU32_delivered delivered List.mem_cons_self]
    simp only
    rw [run_bind, run_withProcess_some found]
    simp only
    rw [run_bind, run_get]
    simp only
    have now : Filled [] { s with rest := rest } := ⟨filled.buffer, filled.fine⟩
    cases reported : (ops.segments (word pid) rest).mapM segmentRegions with
    | none => exact .inl gone_broken
    | some natural =>
      simp only
      rw [run_bind, run_get]
      simp only
      have all : regions ops pid rest =
          natural.flatten ++ (ops.injections (word pid) rest).map injectionRegion := by
        rw [regions, reported, Option.getD_some]
      refine handled_listing regionTable (Remote.sorted ((regions ops pid rest).map regionRow)) now
        (by rw [direct, onProcess, found]) (fun i region member => ?_) (fun elements read => ?_)
          fun s' listed tracing kept => ?_
      · obtain ⟨file, type⟩ := regions_short fits reported region member
        refine adds_indexed_then (by decide) i (.u64 region.low) trivial ?_
        refine adds_indexed_then (by decide) i (.u64 region.high) trivial ?_
        refine adds_indexed_then (by decide) i (.str (some (text region.type))) type ?_
        refine adds_indexed_then (by decide) i (.str (some (region.file.getD []))) file ?_
        exact adds_indexed (by decide) i (.u32 (if region.file.isSome then region.offset else 0#32))
          trivial
      · have listing : rows elements "segc" ["seglo", "seghi", "segtype", "segfile", "segoff"] =
            .ok ((natural.flatten ++ (ops.injections (word pid) rest).map injectionRegion).map
              regionRow) :=
          read.trans (congrArg Except.ok (map_zipIdx regionRow _))
        rw [Command.reply, listing, all]
        rfl
      · refine replies_adds listed (adds_cell regionTable.counted (.u32 (BitVec.ofNat 32 _))
          trivial) fun s'' now' tracing' rest' => ?_
        exact replies_changed now' _ _ (tracing'.trans tracing) (congrArg _ (rest'.trans kept))

omit filled in
/-- The words of a dump, with what is put behind them. -/
private theorem replies_dump (now : Filled [] s) (data : List (BitVec 8)) {n : Nat}
    (whole : 4 * n ≤ data.length) (address : BitVec 64) (f : ω → ω)
    (message : CString) {p a b : Int} {r : EStateM.Result Exit (Server ω) Unit}
    (ran : r = (report (fun i _ => indexed "word" i >>= fun name =>
      put (payloadPutU32 name (wordAt data i))) (List.replicate n ()) >>= fun _ =>
      put (payloadPutU64 (text "address") address) >>= fun _ =>
        put (payloadPutU32 (text "size") (BitVec.ofNat 32 n)) >>= fun _ =>
      change ops f >>= fun _ => okay request message) s) :
    Gone r ∨ ∃ puts, Replies request "OKAY" puts s.tracing (f s.rest) r ∧
      Shows (.dump p a b) "OKAY" puts (.bytes (data.take (4 * n))) := by
  have each : ∀ i, ∀ u ∈ List.replicate n (),
      Adds (indexed "word" i >>= fun name => put (payloadPutU32 name (wordAt data i)) : Handler ω Unit)
      (rowPuts (wordTable data).columns i u) :=
        fun i _ _ => adds_indexed (by decide) i (.u32 (wordAt data i)) trivial
  have count : (wordTable data).total (List.replicate n ()) =
      (Cell.u32 (BitVec.ofNat 32 n)).put (text "size") := by
    rw [Table.total, List.length_replicate]
    rfl
  rw [ran]
  rcases report_cases (wordTable data) now each with gone | ⟨s', ran, listed, tracing, kept, few⟩
  · exact .inl (gone_exhausted gone)
  · rw [ran]
    refine .inr ⟨tablePuts (wordTable data).columns (List.replicate n ()) ++
      [(Cell.u64 address).put (text "address")] ++
      [(Cell.u32 (BitVec.ofNat 32 n)).put (text "size")], ?_, rfl, fun message => ?_⟩
    · refine replies_adds listed (adds_cell ⟨by decide, by decide⟩ (.u64 address) trivial) fun s₁
        now₁ tracing₁ kept₁ => ?_
      refine replies_adds now₁ (adds_cell ⟨by decide, by decide⟩ (.u32 (BitVec.ofNat 32 n)) trivial)
        fun s₂ now₂ tracing₂ kept₂ => ?_
      exact replies_changed now₂ f _ (tracing₂.trans (tracing₁.trans tracing))
        (congrArg f (kept₂.trans (kept₁.trans kept)))
    · have extra : ∀ p ∈ [(Cell.u64 address).put (text "address")], bracket ∉ p.value.name ∧
          p.value.name ≠ text (wordTable data).count := by
        intro p member
        obtain rfl := List.mem_singleton.mp member
        exact show bracket ∉ text "address" ∧ text "address" ≠ text "size" by decide
      have read := (wordTable data).read few [(Cell.u64 address).put (text "address")] extra message
      rw [count] at read
      have words : rows ((tablePuts (wordTable data).columns (List.replicate n ()) ++
          [(Cell.u64 address).put (text "address")] ++
          [(Cell.u32 (BitVec.ofNat 32 n)).put (text "size")] ++ [messagePut message]).map Put.value)
            "size" ["word"] =
          .ok ((List.replicate n ()).zipIdx.map fun e => [.number (wordAt data e.2).toNat]) := read
      have bytes := tobytes_words data whole
      have order (x : Except Remote.Raised (List Bytes)) :
          (x >>= fun parts => Except.ok (Remote.Reply.bytes parts.flatten)) =
          (x.map List.flatten).map Remote.Reply.bytes := by
        cases x with
        | ok parts => rfl
        | error e => rfl
      rw [Command.reply, words]
      exact (order _).trans (congrArg (Except.map Remote.Reply.bytes) bytes)

theorem handled_dump {address size : Int}
    (delivered : Delivered request "MEMD" [putU32 "pid" pid, putU64 "address" address,
      putU32 "size" size]) :
    Handled ops request (.dump pid address size) s (handleMEMD ops request s) := by
  have first : putU32 "pid" pid ∈ [putU32 "pid" pid, putU64 "address" address,
      putU32 "size" size] := List.mem_cons_self
  have second : putU64 "address" address ∈ [putU32 "pid" pid, putU64 "address" address,
      putU32 "size" size] :=
    List.mem_cons_of_mem _ List.mem_cons_self
  have third : putU32 "size" size ∈ [putU32 "pid" pid, putU64 "address" address, putU32 "size" size] :=
    List.mem_cons_of_mem _ (List.mem_cons_of_mem _ List.mem_cons_self)
  simp only [handleMEMD]
  rw [run_bind, readU32_delivered delivered first]
  simp only
  rw [run_bind, readU64_delivered delivered second]
  simp only
  rw [run_bind, readU32_delivered delivered third]
  simp only
  cases found : ops.processGet (word pid) s.rest with
  | none =>
    refine handled_refused filled (by rw [direct, onProcess, found]) ?_
    exact ⟨_, run_withProcess_none filled.fine.built found⟩
  | some rest =>
    rw [run_bind, run_withProcess_some found]
    simp only
    rw [run_bind, run_get]
    simp only [MemDumpProofs.processIsRunning_false, Bool.false_eq_true, if_false]
    rw [run_bind, run_get]
    simp only
    cases stopped : threadAnyStopped (ops.threads (word pid) rest) with
    | none => exact .inl gone_broken
    | some thread =>
      simp only
      refine handled_step (change_cases ops _ _) (handled_step (call_cases ops _ _) ?_)
      generalize is : ops.memRead thread.tid (long address)
        (BitVec.ofNat 32 (min ((word size).toNat / 4 * 4) 10240))
        (ops.threadDup thread.tid rest) = read
      obtain ⟨data, after⟩ := read
      have now : Filled [] { s with rest := after } := ⟨filled.buffer, filled.fine⟩
      have whole : 4 * (data.length / 4) ≤ data.length := Nat.mul_div_le data.length 4
      have result : direct ops (.dump pid address size) (s.tracing, s.rest) =
          (.bytes (data.take (4 * (data.length / 4))), s.tracing, ops.processPut (word pid) after) := by
        simp only [direct, onProcess, found, dumped, stopped, is, Nat.mul_comm 4]
      rw [Handled, result]
      rcases replies_dump now data whole (long address) (ops.processPut (word pid)) _
        rfl with gone | ⟨puts, replies, shows_⟩
      · exact .inl gone
      · exact .inr ⟨"OKAY", puts, replies, shows_⟩

end Listings

end Adbi.HandlerProofs
