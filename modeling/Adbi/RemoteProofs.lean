import Adbi.HandlerProofs

/-! The commands of the client over the wire: each does what the call that it is
for does, and so does every session of them. -/
namespace Adbi.RemoteProofs
open Adbi.Lib Adbi.Lib.Traced Adbi.Payload Adbi.PayloadProofs Adbi.PayloadPutProofs Adbi.Client
  Adbi.ClientProofs
open Adbi.Protocol Adbi.Session Adbi.SessionProofs Adbi.ListingProofs Adbi.HandlerProofs
open Adbi.Remote Adbi.Direct
open Adbi.MemDumpProofs (fieldU32)

variable {ω : Type} {ops : Operations ω} {command : Command} {link : Link ω}

/-- Strings have no zeros. -/
def Plain (command : Command) : Prop := ∀ e ∈ command.payload.2, ∀ s, e.value = .text s → 0#8 ∉ s

/-- What the client and the server have in common. -/
def state (link : Link ω) : State ω := (link.server.tracing, link.server.rest)

/-- The client returns what the call results in. -/
def Matches : Reply → Outcome → Prop
  | .packet _, .done => True
  | .packet elements, .explained info => getField elements (text "info") none = .ok (.text info)
  | .listing rows, .listing listed => rows = listed
  | .bytes data, .bytes dumped => data = dumped
  | _, _ => False

/-- What breaks the server: no memory for the arguments of a program, a process without a stopped
thread that its memory could be read through, or a segment with trampolines, but no injection that
they belong to. -/
inductive Fatal (ops : Operations ω) (command : Command) (w : ω) : Prop where
  | unallocated {args : List CString} (spawns : command = .spawn args)
      (refused : ops.allocates (4 * (args.length + 1)) w = false)
  | unstopped {pid address size : Int} {rest : ω} (dumps : command = .dump pid address size)
      (found : ops.processGet (word pid) w = some rest)
        (none : threadAnyStopped (ops.threads (word pid) rest) = none)
  | bare {pid : Int} {rest : ω} {segment : Segment} (maps : command = .memory pid)
      (found : ops.processGet (word pid) w = some rest)
      (among : segment ∈ ops.segments (word pid) rest) (trampolines : segment.trampolines ≠ 0#64)
        (none : segment.injection = none)

/-- The command that the server has no room for. -/
def Exhausts (ops : Operations ω) (command : Command) (link : Link ω) : Prop :=
  ∃ packet s', requestPack (packetId command.payload.1) link.seq.toNat command.payload.2 = some packet ∧
    handlePacket ops (received packet) link.server = .error .exhausted s'

/-- The command for which the server calls a function that does not return. -/
def Aborts (ops : Operations ω) (command : Command) (link : Link ω) : Prop :=
  ∃ packet s', requestPack (packetId command.payload.1) link.seq.toNat command.payload.2 = some packet ∧
    handlePacket ops (received packet) link.server = .error .aborted s' ∧ ops.aborted s'.rest = true

/-- What the server is lost over. -/
def Loses (ops : Operations ω) (command : Command) (link : Link ω) : Prop :=
  Fatal ops command link.server.rest ∨ Exhausts ops command link ∨ Aborts ops command link

/-- How a command can end, with the call that it is for. -/
inductive Agrees (ops : Operations ω) (command : Command) (link : Link ω) :
    EStateM.Result Raised (Link ω) Reply → Prop where
  | returned {reply : Reply} {link' : Link ω} (sent : sendable command = true)
      (matches_ : Matches reply (direct ops command (state link)).1) (left : state link' =
        (direct ops command (state link)).2) :
      Agrees ops command link (.ok reply link')
  | refused {message : Value} {link' : Link ω} (sent : sendable command = true)
      (refuses : (direct ops command (state link)).1 = .refused) (left : state link' =
        (direct ops command (state link)).2) :
      Agrees ops command link (.error (.refused message) link')
  /-- The request is too large for its header, or a number for its field. -/
  | unsent {link' : Link ω} (large : sendable command = false) (left : state link' = state link) :
      Agrees ops command link (.error .packing link')
  | gone {link' : Link ω} (stops : Loses ops command link) :
      Agrees ops command link (.error .disconnected link')

/-! ## The order of the memory map -/

theorem valueLe_total (a b : Value) : valueLe a b = true ∨ valueLe b a = true := by
  cases a with
  | number m =>
    cases b with
    | number n => simpa [valueLe] using le_total m n
    | text t => exact .inl rfl
  | text s =>
    cases b with
    | number n => exact .inr rfl
    | text t => simpa [valueLe] using List.le_total s t

theorem valueLe_antisymm {a b : Value} (le : valueLe a b = true) (ge : valueLe b a = true) : a = b := by
  cases a <;> cases b <;> simp only [valueLe, decide_eq_true_eq, Bool.false_eq_true] at le ge
  · rw [le_antisymm le ge]
  · rw [List.le_antisymm le ge]

theorem valueLe_trans {a b c : Value} (first : valueLe a b = true) (second : valueLe b c = true) :
    valueLe a c = true := by
  cases a <;> cases b <;> cases c <;> simp only [valueLe, decide_eq_true_eq, Bool.false_eq_true] at *
  · exact le_trans first second
  · exact List.le_trans first second

theorem tupleLe_total (as bs : List Value) : tupleLe as bs = true ∨ tupleLe bs as = true := by
  induction as generalizing bs with
  | nil => exact .inl rfl
  | cons a as ih =>
    cases bs with
    | nil => exact .inr rfl
    | cons b bs =>
      by_cases same : a = b
      · simpa only [tupleLe, same, if_true] using ih bs
      · simpa only [tupleLe, if_neg same, if_neg (Ne.symm same)] using valueLe_total a b

theorem tupleLe_trans {as bs cs : List Value} (first : tupleLe as bs = true)
    (second : tupleLe bs cs = true) :
    tupleLe as cs = true := by
  induction as generalizing bs cs with
  | nil => rfl
  | cons a as ih =>
    cases bs with
    | nil => cases first
    | cons b bs =>
      cases cs with
      | nil => cases second
      | cons c cs =>
        simp only [tupleLe] at first second ⊢
        by_cases ab : a = b
        · subst ab
          by_cases ac : a = c
          · rw [if_pos ac] at second ⊢
            rw [if_pos rfl] at first
            exact ih first second
          · rwa [if_neg ac] at second ⊢
        · rw [if_neg ab] at first
          by_cases bc : b = c
          · subst bc
            rwa [if_neg ab]
          · rw [if_neg bc] at second
            -- a value that is neither greater nor less is the same
            have ac : a ≠ c := fun same => ab (valueLe_antisymm first (same ▸ second))
            rw [if_neg ac]
            exact valueLe_trans first second

/-- What is sorted is in order, and nothing is lost or added. -/
theorem sorted_ordered (tuples : List (List Value)) :
    (sorted tuples).Pairwise (fun a b => tupleLe a b = true) ∧ (sorted tuples).Perm tuples := by
  have total (a b : List Value) : (tupleLe a b || tupleLe b a) = true := by
    simpa using tupleLe_total a b
  have trans (a b c : List Value) (first : tupleLe a b = true) (second : tupleLe b c = true) :
      tupleLe a c = true :=
    tupleLe_trans first second
  exact ⟨List.pairwise_mergeSort trans total tuples, List.mergeSort_perm tuples tupleLe⟩

/-! ## Requests -/

section Requests

variable {type : String} {elements : List Client.Element} {seq : Int} {packet : Bytes}

private theorem packed_type {t : Word} (packed : requestPack t seq elements = some packet) :
    ofLittleEndian 32 (packet.take 4) = t := by
  unfold requestPack headerPack at packed
  simp only [Option.bind_eq_bind, Option.bind_eq_some_iff] at packed
  obtain ⟨payload, -, header, ⟨seqBytes, -, sizeBytes, -, eq⟩, joined⟩ := packed
  cases eq
  cases joined
  rw [List.append_assoc, List.append_assoc, List.take_left' (by simp)]
  exact ofLittleEndian_littleEndian _ (by decide)

/-- A request reaches the server as it was packed. -/
theorem delivered (fields : ∀ e ∈ elements, Field e) (distinct : (elements.map (·.name)).Nodup)
    (packed : requestPack (packetId type) seq elements = some packet) :
    Delivered (received packet) type elements := by
  obtain ⟨payload, -, behind, total⟩ := requestPack_some packed
  have size := (announced packet).isLt
  have holds : Holds (received packet).payload 0 (packet.drop 12) :=
    holds_of_getD (by rw [behind]; omega) 0
  obtain ⟨accepted, reads⟩ := request_read fields distinct packed holds
  refine ⟨⟨?_, packed_type packed⟩, reads, fun e member => (fields e member).text⟩
  exact check_ends (accepted_iff_chain.mp accepted) (Nat.lt_succ_self _)

private theorem requestPack_isSome (type seq : Word) (elements : List Client.Element) :
    (requestPack type seq.toNat elements).isSome = true ↔
    ∃ payload size, payloadPack elements = some payload ∧
      packUnsigned 32 payload.length = some size := by
  have number : packUnsigned 32 (seq.toNat : Int) = some (littleEndian seq) := by
    rw [packUnsigned_of_lt seq.isLt, BitVec.ofNat_toNat, BitVec.setWidth_eq]
  simp only [requestPack, headerPack, number, Option.isSome_iff_exists, Option.bind_eq_bind,
    Option.bind_eq_some_iff]
  constructor
  · rintro ⟨packet, payload, packed, header, ⟨_, -, size, sized, -⟩, -⟩
    exact ⟨payload, size, packed, sized⟩
  · rintro ⟨payload, size, packed, sized⟩
    exact ⟨_, payload, packed, _, ⟨_, rfl, size, sized, rfl⟩, rfl⟩

/-- Whether a request can be packed does not depend on its number. -/
private theorem sendable_iff (command : Command) (seq : Word) :
    sendable command = (requestPack (packetId command.payload.1) seq.toNat
      command.payload.2).isSome := by
  have zero : (0 : Int) = (0 : Word).toNat := by simp
  rw [sendable, zero, Bool.eq_iff_iff, requestPack_isSome, requestPack_isSome]

/-- A payload has nine bytes or more for every field. -/
private theorem fields_fit {stored : List Payload.Element} (built : Built stored) :
    9 * stored.length ≤ (payloadBytes stored).length := by
  induction stored with
  | nil => simp
  | cons e rest ih =>
    have later := ih ⟨fun d member => built.storable d (List.mem_cons_of_mem _ member),
      fun d member => built.plain d (List.mem_cons_of_mem _ member)⟩
    rw [payloadBytes_cons, List.length_append,
      length_add_element (built.storable e List.mem_cons_self), elementLength, List.length_cons]
    omega

/-- The header has no room for the size of more fields. -/
theorem few_fields (fields : ∀ e ∈ elements, Field e)
    (packed : requestPack (packetId type) seq elements = some packet) :
    elements.length < 2 ^ 29 := by
  obtain ⟨payload, whole, -, total⟩ := requestPack_some packed
  obtain ⟨stored, all, rfl⟩ := payloadPack_some fields whole
  have size := (announced packet).isLt
  have least := fields_fit (built_of_same fields all)
  have part : (payloadBytes stored).length ≤ (payloadBytes (stored ++ [payloadPutTerm])).length :=
    by simp [payloadBytes]
  rw [all.length_eq]
  omega

end Requests

/-! ## Payloads of the commands -/

private theorem numbered_plain {base : String} (plain : 0#8 ∉ text base) (i : Nat) :
    0#8 ∉ numbered base i := by
  have brackets : 0#8 ∉ text "[" ∧ 0#8 ∉ text "]" := by decide
  simp only [numbered, List.mem_append, not_or]
  exact ⟨⟨⟨plain, brackets.1⟩, MemDumpProofs.decimal_plain i⟩, brackets.2⟩

/-- The names of the fields of a command, and their types. -/
private theorem command_field (command : Command) :
    ∀ e ∈ command.payload.2, 0#8 ∉ e.name ∧ e.type ≠ .terminator := by
  cases command with
  | spawn args =>
    intro e member
    rcases List.mem_cons.mp member with rfl | argument
    · exact ⟨show 0#8 ∉ text "argc" by decide, by simp [putU32]⟩
    · obtain ⟨i, inside, rfl⟩ := List.mem_mapIdx.mp argument
      exact ⟨numbered_plain (by decide) i, by simp [putStr]⟩
  | _ =>
    simp [Command.payload, putU32, putU64, putStr]
    try decide

theorem command_fields (plain : Plain command) : ∀ e ∈ command.payload.2, Field e := fun e member =>
  ⟨(command_field command e member).1, (command_field command e member).2, plain e member⟩

/-- The arguments of a program are numbered, and the other commands have few fields. -/
theorem command_distinct (command : Command) : (command.payload.2.map (·.name)).Nodup := by
  cases command with
  | spawn args =>
    have names : ((args.mapIdx fun i arg => putStr (numbered "argv" i) arg).map (·.name)) =
        (List.range args.length).map (numbered "argv") := by
      refine List.ext_getElem (by simp) fun i inside _ => ?_
      simp [putStr]
    have plain : bracket ∉ text "argv" := by decide
    simp only [Command.payload, List.map_cons, names, List.nodup_cons]
    refine ⟨fun member => ?_, List.Nodup.map (fun i j same => (numbered_inj plain plain same).2)
      List.nodup_range⟩
    obtain ⟨i, -, same⟩ := List.mem_map.mp member
    have bracketed : bracket ∈ (putU32 "argc" args.length).name := same ▸ mem_numbered "argv" i
    exact absurd bracketed (show bracket ∉ text "argc" by decide)
  | _ =>
    simp [Command.payload, putU32, putU64, putStr]
    try decide

/-! ## Handlers -/

private theorem types_distinct : (types.map packetId).Nodup := by decide

/-- The handler of a request, with the buffer empty. -/
theorem handlePacket_asks {request : Request} {entry : String × Handler ω Unit}
    (among : entry ∈ handlers ops request)
    (asks : Asks request entry.1) (s : Server ω) :
    handlePacket ops request s = entry.2 { s with buffer := [] } := by
  have found : (handlers ops request).find? (fun other => packetId other.1 = request.type) =
      some entry := by
    cases search : (handlers ops request).find? (fun other => packetId other.1 = request.type) with
    | none => exact absurd (List.find?_eq_none.mp search entry among) (by simp [asks.2])
    | some other =>
      have type : packetId other.1 = packetId entry.1 := by
        rw [← asks.2]
        simpa using List.find?_some search
      have ids : ((handlers ops request).map fun other => packetId other.1).Nodup := types_distinct
      rw [List.inj_on_of_nodup_map ids (List.mem_of_find?_eq_some search) among type]
  have sound : (payloadCheck request.payload (request.length.toNat + 1) request.length).value =
      some true := asks.1
  simp only [handlePacket, run_bind, sound, found]
  rfl

/-- What the handler of a command answers. -/
theorem handled (fits : Fits ops) {request : Request}
    (delivered : Delivered request command.payload.1 command.payload.2)
    (few : command.payload.2.length < 2 ^ 29) {s : Server ω} (filled : Filled [] s) :
    ∃ handler, (command.payload.1, handler) ∈ handlers ops request ∧
    Handled ops request command s (handler s) := by
  cases command with
  | ping => exact ⟨_, by simp [handlers, Command.payload], handled_ping filled⟩
  | quit => exact ⟨_, by simp [handlers, Command.payload], handled_quit filled⟩
  | start => exact ⟨_, by simp [handlers, Command.payload], handled_start filled⟩
  | stop => exact ⟨_, by simp [handlers, Command.payload], handled_stop filled⟩
  | processes => exact ⟨_, by simp [handlers, Command.payload], handled_processes filled⟩
  | attach pid => exact ⟨_, by simp [handlers, Command.payload], handled_attach filled delivered⟩
  | detach pid => exact ⟨_, by simp [handlers, Command.payload], handled_detach filled delivered⟩
  | kill pid => exact ⟨_, by simp [handlers, Command.payload], handled_kill filled delivered⟩
  | spawn args =>
    have count : args.length < 2 ^ 30 - 1 := by
      simp only [Command.payload, List.length_cons, List.length_mapIdx] at few
      omega
    exact ⟨_, by simp [handlers, Command.payload], handled_spawn filled delivered count⟩
  | injectableLoad path =>
    exact ⟨_, by simp [handlers, Command.payload], handled_injectableLoad filled delivered⟩
  | injectableUnload iid =>
    exact ⟨_, by simp [handlers, Command.payload], handled_injectableUnload filled delivered⟩
  | injectables => exact ⟨_, by simp [handlers, Command.payload], handled_injectables filled fits⟩
  | exports iid => exact ⟨_, by simp [handlers, Command.payload], handled_exports filled fits delivered⟩
  | imports iid => exact ⟨_, by simp [handlers, Command.payload], handled_imports filled fits delivered⟩
  | adbi iid => exact ⟨_, by simp [handlers, Command.payload], handled_adbi filled fits delivered⟩
  | tracepoints iid =>
    exact ⟨_, by simp [handlers, Command.payload], handled_tracepoints filled delivered⟩
  | loglevel level => exact ⟨_, by simp [handlers, Command.payload], handled_loglevel filled delivered⟩
  | ls path => exact ⟨_, by simp [handlers, Command.payload], handled_ls filled fits delivered⟩
  | memory pid => exact ⟨_, by simp [handlers, Command.payload], handled_memory filled fits delivered⟩
  | explainAddress pid address =>
    exact ⟨_, by simp [handlers, Command.payload], handled_explainAddress filled fits delivered⟩
  | dump pid address size =>
    exact ⟨_, by simp [handlers, Command.payload], handled_dump filled delivered⟩

/-! ## Responses -/

section Responses

variable {puts : List Put} {kind : String} {seq : Word}

/-- The client has the fields of a response as they were put in. -/
theorem recv_sent (built : Built (puts.map Put.element))
    (fits : (payloadBytes (puts.map Put.element ++ [payloadPutTerm])).length ≤ 2 ^ 31) :
    recv (sent ⟨packetId kind, seq, payloadBytes (puts.map Put.element ++ [payloadPutTerm])⟩) =
      some (typeDecode (packetId kind), puts.map Put.value) := by
  have unpacked : unpackFrom (payloadBytes (puts.map Put.element ++ [payloadPutTerm])) =
      some (puts.map Put.value) := by
    refine unpack_built (fun put member => (built.storable _ (List.mem_map_of_mem member)).name)
      fun put member => ⟨?_, ?_⟩
    · have named := (built.storable _ (List.mem_map_of_mem member)).nameFits
      omega
    · exact (built.storable _ (List.mem_map_of_mem member)).dataFits
  generalize payloadBytes (puts.map Put.element ++ [payloadPutTerm]) = payload at fits unpacked
  have type : (sent ⟨packetId kind, seq, payload⟩).take 4 = littleEndian (packetId kind) := by
    rw [sent, List.append_assoc, List.append_assoc, List.take_left' (by simp)]
  have length : ((sent ⟨packetId kind, seq, payload⟩).drop 8).take 4 =
      littleEndian (BitVec.ofNat 32 payload.length) := by
    rw [sent, List.append_assoc, List.drop_left' (by simp), List.take_left' (by simp)]
  have behind : (sent ⟨packetId kind, seq, payload⟩).drop 12 = payload := by
    rw [sent, List.drop_left' (by simp)]
  have size : payload.length % 2 ^ 32 = payload.length := Nat.mod_eq_of_lt (by omega)
  simp only [recv, type, length, behind, ofLittleEndian_littleEndian _ (show 8 ∣ 32 by decide),
    BitVec.toNat_ofNat, size,
    List.take_length, unpacked]
  rfl

/-- A response that work has been done. -/
theorem accept_okay (built : Built (puts.map Put.element))
    (fits : (payloadBytes (puts.map Put.element ++ [payloadPutTerm])).length ≤ 2 ^ 31) :
    accept ⟨packetId "OKAY", seq, payloadBytes (puts.map Put.element ++ [payloadPutTerm])⟩ =
      .ok (puts.map Put.value) := by
  have type : typeDecode (packetId "OKAY") = text "OKAY" := by decide
  have others : text "OKAY" ≠ text "FAIL" ∧ text "OKAY" ≠ text "USUP" ∧ text "OKAY" ≠ text "MALF" :=
    by decide
  simp only [accept, recv_sent built fits, type, if_neg others.1, if_neg others.2.1, if_neg others.2.2]
  rfl

/-- A response that work could not be done, with or without a message. -/
theorem accept_fail (built : Built (puts.map Put.element))
    (fits : (payloadBytes (puts.map Put.element ++ [payloadPutTerm])).length ≤ 2 ^ 31) :
    ∃ message, accept ⟨packetId "FAIL", seq,
      payloadBytes (puts.map Put.element ++ [payloadPutTerm])⟩ = .error (.refused message) := by
  have type : typeDecode (packetId "FAIL") = text "FAIL" := by decide
  simp only [accept, recv_sent built fits, type, if_true, getField]
  split
  · exact ⟨_, rfl⟩
  · exact ⟨_, rfl⟩

/-- What the client makes of the response is what the call results in. -/
theorem reply_matches {outcome : Outcome} {message : CString} (seq : Word)
    (shows_ : Shows command kind puts outcome)
    (built : Built ((puts ++ [messagePut message]).map Put.element))
    (fits : (payloadBytes ((puts ++ [messagePut message]).map Put.element ++
      [payloadPutTerm])).length ≤ 2 ^ 31) :
    (∃ message' , accept ⟨packetId kind, seq,
      payloadBytes ((puts ++ [messagePut message]).map Put.element ++ [payloadPutTerm])⟩ =
        .error (.refused message') ∧ outcome = .refused) ∨
      ∃ elements reply, accept ⟨packetId kind, seq,
        payloadBytes ((puts ++ [messagePut message]).map Put.element ++ [payloadPutTerm])⟩ =
        .ok elements ∧ command.reply elements = .ok reply ∧ Matches reply outcome := by
  cases outcome with
  | refused =>
    obtain rfl : kind = "FAIL" := shows_
    obtain ⟨message', refused⟩ := accept_fail built fits
    exact .inl ⟨message', refused, rfl⟩
  | done =>
    obtain ⟨rfl, packet⟩ := shows_
    obtain ⟨elements, reply⟩ := packet ((puts ++ [messagePut message]).map Put.value)
    exact .inr ⟨_, _, accept_okay built fits, reply, trivial⟩
  | explained info =>
    obtain ⟨rfl, packet, info⟩ := shows_
    exact .inr ⟨_, _, accept_okay built fits, packet _, info message⟩
  | listing rows =>
    obtain ⟨rfl, listing⟩ := shows_
    exact .inr ⟨_, _, accept_okay built fits, listing message, rfl⟩
  | bytes data =>
    obtain ⟨rfl, bytes⟩ := shows_
    exact .inr ⟨_, _, accept_okay built fits, bytes message, rfl⟩

end Responses

/-! ## Commands -/

/-- A command that the server answers. -/
private theorem perform_answered {packet : Bytes} {response : Response} {server : Server ω}
    (packed : requestPack (packetId command.payload.1) link.seq.toNat command.payload.2 = some packet)
    (answered : handlePacket ops (received packet) link.server = .error (.answer response) server) :
    perform ops command link =
      (lift (accept response) >>= fun elements => lift (command.reply elements))
      { link with seq := link.seq + 1, server := server } := by
  have sends : request ops command.payload.1 command.payload.2 link =
      lift (accept response) { link with seq := link.seq + 1, server := server } := by
    simp only [request, run_bind, run_get, packed, answered]
    rfl
  rw [perform, run_bind, sends, run_bind]

/-- A command that the server is lost over. -/
private theorem perform_lost {packet : Bytes} {e : Exit} {server : Server ω}
    (packed : requestPack (packetId command.payload.1) link.seq.toNat command.payload.2 = some packet)
    (left : handlePacket ops (received packet) link.server = .error e server)
    (silent : ∀ response, e ≠ .answer response) :
    perform ops command link = .error .disconnected
      { link with seq := link.seq + 1, server := server } := by
  have sends : request ops command.payload.1 command.payload.2 link =
      .error .disconnected { link with seq := link.seq + 1, server := server } := by
    simp only [request, run_bind, run_get, packed, left]
    cases e with
    | answer response => exact absurd rfl (silent response)
    | broken => rfl
    | exhausted => rfl
    | aborted => rfl
  rw [perform, run_bind, sends]

private theorem perform_unsent (unpacked : requestPack (packetId command.payload.1) link.seq.toNat
      command.payload.2 = none) :
    perform ops command link = .error .packing { link with seq := link.seq + 1 } := by
  have fails : request ops command.payload.1 command.payload.2 link =
      .error .packing { link with seq := link.seq + 1 } := by
    simp only [request, run_bind, run_get, unpacked]
    rfl
  rw [perform, run_bind, fails]

/-- What breaks the server is one of these commands. -/
private theorem fatal_of_breaks {request : Request}
    (delivered : Delivered request command.payload.1 command.payload.2)
    (few : command.payload.2.length < 2 ^ 29) {s : Server ω} (breaks : Breaks ops request s) :
    Fatal ops command s.rest := by
  have type {other : String} (asks : Asks request other) : packetId command.payload.1 = packetId other :=
    delivered.asks.2.symm.trans asks.2
  have field {name : String} {n : Int} {value : Word} (member : putU32 name n ∈ command.payload.2)
      (given : fieldU32 request name = some value) : value = word n :=
    Option.some.inj (given.symm.trans (fieldU32_delivered delivered member))
  cases breaks with
  | endless unchecked => exact absurd (delivered.asks.1.symm.trans unchecked) (by simp)
  | arguments argc asks given many =>
    cases command with
    | spawn args =>
      have count := field (n := args.length) List.mem_cons_self given
      simp only [Command.payload, List.length_cons, List.length_mapIdx] at few
      rw [count, word, BitVec.ofInt_natCast, BitVec.toNat_ofNat] at many
      omega
    | _ => exact absurd (type asks) (by simp only [Command.payload]; decide)
  | unallocated argc asks given refused =>
    cases command with
    | spawn args =>
      have count := field (n := args.length) List.mem_cons_self given
      simp only [Command.payload, List.length_cons, List.length_mapIdx] at few
      rw [count, word, BitVec.ofInt_natCast, BitVec.toNat_ofNat, Nat.mod_eq_of_lt (by omega),
        Nat.mod_eq_of_lt (by omega)] at refused
      exact .unallocated rfl refused
    | _ => exact absurd (type asks) (by simp only [Command.payload]; decide)
  | unstopped pid rest asks given found none =>
    cases command with
    | dump =>
      obtain rfl := field List.mem_cons_self given
      exact .unstopped rfl found none
    | _ => exact absurd (type asks) (by simp only [Command.payload]; decide)
  | bare pid rest segment asks given found among trampolines none =>
    cases command with
    | memory =>
      obtain rfl := field List.mem_cons_self given
      exact .bare rfl found among trampolines none
    | _ => exact absurd (type asks) (by simp only [Command.payload]; decide)

/-- A command does over the wire what its call does. -/
theorem perform_agrees (fits : Fits ops) (plain : Plain command) (link : Link ω) :
    Agrees ops command link (perform ops command link) := by
  cases packed : requestPack (packetId command.payload.1) link.seq.toNat command.payload.2 with
  | none =>
    rw [perform_unsent packed]
    exact .unsent (by rw [sendable_iff command link.seq, packed]; rfl) rfl
  | some packet =>
    have sends : sendable command = true :=
      by rw [sendable_iff command link.seq, packed, Option.isSome_some]
    have fields := command_fields plain
    have delivered := delivered fields (command_distinct command) packed
    have empty : Filled [] { link.server with buffer := [] } :=
      ⟨rfl, ⟨by simp, by simp⟩, by simp [payloadBytes]⟩
    obtain ⟨handler, among, answers⟩ := handled fits delivered (few_fields fields packed) empty
    have left := handlePacket_asks among delivered.asks link.server
    -- the handler may be left for good wherever it adds to the response
    have lost (gone : Gone (handler { link.server with buffer := [] })) :
        Agrees ops command link (perform ops command link) := by
      obtain ⟨e, s', ends, silent⟩ := gone
      have ran := left.trans ends
      rw [perform_lost packed ran silent]
      obtain ⟨e', s'', same, how⟩ := handlePacket_left fits (received packet) link.server
      rw [ran] at same
      cases same
      cases how with
      | answer => exact absurd rfl (silent _)
      | broken breaks => exact .gone (.inl (fatal_of_breaks delivered (few_fields fields packed) breaks))
      | exhausted => exact .gone (.inr (.inl ⟨packet, s', packed, ran⟩))
      | aborted down => exact .gone (.inr (.inr ⟨packet, s', packed, ran, down⟩))
    rcases answers with
        gone | ⟨kind, puts, gone | ⟨message, s', ran, tracing, rest, built, room⟩, shows_⟩
    · exact lost gone
    · exact lost gone
    · rw [perform_answered packed (left.trans ran)]
      have after : state (ω := ω) { link with seq := link.seq + 1, server := s' } =
          (direct ops command (state link)).2 :=
        Prod.ext tracing rest
      rcases reply_matches (received packet).seq shows_ built room with
        ⟨message', refused, outcome⟩ | ⟨elements, reply, accepted, read, same⟩
      · rw [refused]
        exact .refused sends outcome after
      · rw [accepted]
        show Agrees ops command link ((lift (command.reply elements)) _)
        rw [read]
        exact .returned sends same after

/-! ## Sessions -/

/-- What a command returned or raised, and what its call results in. -/
inductive Same : Except Raised Reply → Option Outcome → Prop where
  | returned {reply : Reply} {outcome : Outcome} (matches_ : Matches reply outcome) :
      Same (.ok reply) (some outcome)
  | refused (message : Value) : Same (.error (.refused message)) (some .refused)
  | unsent : Same (.error .packing) none

/-- A server with two processes. -/
def pair : Operations Unit := { idle with processes := fun _ => [1#32, 2#32] }

private theorem pair_fits : Fits pair := { idle_fits with }

/-- Tracing is started, the processes are listed, a level set that no field holds, and a third
process attached to. -/
def fourCommands : List Command := [.start, .processes, .loglevel (-1), .attach 3]

private theorem plain_commands : ∀ command ∈ fourCommands, Plain command := by
  simp [fourCommands, Plain, Command.payload, putU32]

end Adbi.RemoteProofs
