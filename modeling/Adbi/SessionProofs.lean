import Adbi.Session
import Adbi.Lib.Exits
import Adbi.MemDumpProofs

/-! Every request of a session is answered: whatever a packet says, the server
leaves its handler with a response that a client can read, but for the requests
that break it, as long as the functions that the handler calls return. The
tracing flag follows the requests to start and to stop. -/
namespace Adbi.SessionProofs
open Adbi.Lib Adbi.Lib.Traced Adbi.Payload Adbi.PayloadProofs Adbi.PayloadPutProofs
  Adbi.Protocol Adbi.Session
open Adbi.MemDumpProofs (fieldU32 processIsRunning_false decimal_plain)

variable {ω : Type} {ops : Operations ω} {request : Request} {s₀ : Server ω} {α β : Type}

/-- What breaks the server. -/
inductive Breaks (ops : Operations ω) (request : Request) (s : Server ω) : Prop where
  /-- The check of the payload goes on for ever. -/
  | endless (unchecked : checked request = none)
  /-- The block for the arguments is too small. -/
  | arguments (argc : Word) (asks : Asks request "SPWN") (given : fieldU32 request "argc" = some argc)
      (many : 2 ^ 30 ≤ argc.toNat + 1)
  /-- There is no memory for the block. -/
  | unallocated (argc : Word) (asks : Asks request "SPWN") (given : fieldU32 request "argc" = some argc)
      (refused : ops.allocates (4 * ((argc.toNat + 1) % 2 ^ 30)) s.rest = false)
  /-- No thread is stopped that the memory could be read through. -/
  | unstopped (pid : Word) (rest : ω) (asks : Asks request "MEMD") (given : fieldU32 request "pid" =
      some pid)
      (found : ops.processGet pid s.rest = some rest)
        (none : threadAnyStopped (ops.threads pid rest) = none)
  /-- A segment has trampolines, but no injection that they belong to. -/
  | bare (pid : Word) (rest : ω) (segment : Segment) (asks : Asks request "MAPS")
      (given : fieldU32 request "pid" = some pid)
      (found : ops.processGet pid s.rest = some rest) (among : segment ∈ ops.segments pid rest)
      (trampolines : segment.trampolines ≠ 0#64) (none : segment.injection = none)

/-- The rest of the server after a request that it could not make sense of. -/
def quiet (ops : Operations ω) (request : Request) (s : Server ω) : ω :=
  if Asks request "INJL" ∧ s.tracing = true then ops.processStopAll s.rest else s.rest

/-- A payload that passes the check, and whose size fits its header. -/
structure Readable (payload : Bytes) : Prop where
  fits : payload.length ≤ 2 ^ 31
  accepted : Accepted (fun place => payload.getD place.toNat 0) (BitVec.ofNat 32 payload.length)

/-- A response to a request that finds the server in `s` and leaves it in `s'`. -/
structure Answers (ops : Operations ω) (request : Request) (s s' : Server ω) (response : Response) :
    Prop where
  seq : response.seq = request.seq
  kind : ∃ kind ∈ kinds, response.type = packetId kind
  readable : Readable response.payload
  tracing : s'.tracing = tracingAfter s.tracing request
  unchanged : response.type = packetId "MALF" ∨ response.type = packetId "USUP" →
      s'.rest = quiet ops request s

/-- How a handler is left. -/
inductive Left (ops : Operations ω) (request : Request) (s : Server ω) : Exit → Server ω → Prop where
  | answer {response : Response} {s' : Server ω} (answers : Answers ops request s s' response) :
      Left ops request s (.answer response) s'
  | broken {s' : Server ω} (breaks : Breaks ops request s) : Left ops request s .broken s'
  | exhausted {s' : Server ω} : Left ops request s .exhausted s'
  /-- A function that the handler has called does not return. -/
  | aborted {s' : Server ω} (down : ops.aborted s'.rest = true) : Left ops request s .aborted s'

/-! ## The parts of a handler -/

/-- The response is in order so far, and the rest of the server is as `R` says. -/
def Holding (R : Bool → ω → Prop) (s : Server ω) : Prop := Built s.buffer ∧ R s.tracing s.rest

section Parts

variable {P R S : Bool → ω → Prop}

theorem Holding.imp {s : Server ω} (holding : Holding R s) (weaker : ∀ t w, R t w → S t w) :
    Holding S s :=
  ⟨holding.1, weaker _ _ holding.2⟩

/-- What a program starts with may be a fact. -/
theorem exits_given {fact : Prop} {E : Exit → Server ω → Prop} {P : Server ω → Prop}
    {x : Handler ω α} {Q : α → Server ω → Prop}
    (given : fact → Exits P x Q E) : Exits (fun s => fact ∧ P s) x Q E :=
  ⟨fun s holds a s' ran => (given holds.1).normal s holds.2 a s' ran,
    fun s holds e s' ran => (given holds.1).left s holds.2 e s' ran⟩

/-- Reading the state leaves it alone. -/
theorem exits_read {E : Exit → Server ω → Prop} {P : Server ω → Prop} {f : Server ω → Handler ω α}
    {Q : α → Server ω → Prop}
    (rest : ∀ s, P s → Exits P (f s) Q E) : Exits P (get >>= f) Q E := by
  refine exits_get fun s holds => (rest s holds).strengthen ?_
  rintro t rfl
  exact holds

theorem built_add {elements : List Element} {element : Element} (built : Built elements)
    (storable : Storable element)
    (plain : element.type ≠ .terminator) : Built (elements ++ [element]) := by
  refine ⟨fun e member => ?_, fun e member => ?_⟩
  · rcases List.mem_append.mp member with old | new
    · exact built.storable e old
    · exact List.mem_singleton.mp new ▸ storable
  · rcases List.mem_append.mp member with old | new
    · exact built.plain e old
    · exact List.mem_singleton.mp new ▸ plain

/-- Bytes are added to the buffer, or there is no room. -/
theorem put_cases (element : Element) (s : Server ω) :
    put element s = .error .exhausted s ∨
      put element s = .ok () { s with buffer := s.buffer ++ [element] } ∧
      (payloadBytes (s.buffer ++ [element])).length ≤ 2 ^ 31 := by
  by_cases large : 2 ^ 31 < (payloadBytes (s.buffer ++ [element])).length
  · left
    simp only [put, run_bind, run_get, if_pos large]
    rfl
  · right
    refine ⟨?_, Nat.le_of_not_lt large⟩
    simp only [put, run_bind, run_get, if_neg large]
    rfl

theorem exits_put {element : Element} (storable : Storable element)
    (plain : element.type ≠ .terminator) :
    Exits (Holding R) (put element) (fun _ => Holding R) (Left ops request s₀) := by
  refine ⟨fun s holding _ s' ran => ?_, fun s holding e s' ran => ?_⟩
  · rcases put_cases element s with full | ⟨added, -⟩
    · rw [full] at ran
      cases ran
    · rw [added] at ran
      cases ran
      exact ⟨built_add holding.1 storable plain, holding.2⟩
  · rcases put_cases element s with full | ⟨added, -⟩
    · rw [full] at ran
      cases ran
      exact .exhausted
    · rw [added] at ran
      cases ran

/-- A name of a field or a part of one. -/
structure Plain (name : CString) : Prop where
  plain : 0#8 ∉ name
  short : name.length + 1 < 2 ^ 16

theorem storable_u32 {name : CString} (fits : Plain name) (value : Word) :
    Storable (payloadPutU32 name value) :=
  ⟨fits.plain, fits.short, by simp [payloadPutU32], by simp [payloadPutU32, Typed]⟩

theorem storable_i32 {name : CString} (fits : Plain name) (value : Word) :
    Storable (payloadPutI32 name value) :=
  ⟨fits.plain, fits.short, by simp [payloadPutI32], by simp [payloadPutI32, Typed]⟩

theorem storable_u64 {name : CString} (fits : Plain name) (value : BitVec 64) :
    Storable (payloadPutU64 name value) :=
  ⟨fits.plain, fits.short, by simp [payloadPutU64], by simp [payloadPutU64, Typed]⟩

theorem storable_str {name : CString} (fits : Plain name) {value : Option CString}
    (short : (value.getD []).length + 1 < 2 ^ 32) :
    Storable (payloadPutStr name value) :=
  ⟨fits.plain, fits.short, by simpa [payloadPutStr] using short, ⟨_, rfl⟩⟩

theorem exits_u32 {name : CString} (fits : Plain name) (value : Word) :
    Exits (Holding R) (put (payloadPutU32 name value)) (fun _ => Holding R) (Left ops request s₀) :=
  exits_put (storable_u32 fits value) (by simp [payloadPutU32])

theorem exits_u64 {name : CString} (fits : Plain name) (value : BitVec 64) :
    Exits (Holding R) (put (payloadPutU64 name value)) (fun _ => Holding R) (Left ops request s₀) :=
  exits_put (storable_u64 fits value) (by simp [payloadPutU64])

theorem exits_str {name : CString} (fits : Plain name) {value : Option CString}
    (short : (value.getD []).length + 1 < 2 ^ 32) :
    Exits (Holding R) (put (payloadPutStr name value)) (fun _ => Holding R) (Left ops request s₀) :=
  exits_put (storable_str fits short) (by simp [payloadPutStr])

/-- A number in a name gives a name again. -/
theorem exits_indexed {base : String} (plain : 0#8 ∉ text base) (i : Nat) :
    Exits (Holding R) (indexed base i) (fun name s => Plain name ∧ Holding R s)
    (Left ops request s₀) := by
  rw [indexed]
  split
  · rename_i short
    refine exits_pure fun s holding => ⟨⟨?_, by omega⟩, holding⟩
    have brackets : 0#8 ∉ text "[" ∧ 0#8 ∉ text "]" := by decide
    simp only [List.mem_append, not_or]
    exact ⟨⟨⟨plain, brackets.1⟩, decimal_plain i⟩, brackets.2⟩
  · exact exits_throw fun _ _ => .exhausted

/-- An element with a numbered name. -/
theorem exits_numbered {base : String} (plain : 0#8 ∉ text base) (i : Nat) {element : CString → Element}
    (storable : ∀ name, Plain name → Storable (element name))
    (typed : ∀ name, (element name).type ≠ .terminator) :
    Exits (Holding R) (indexed base i >>= fun name => put (element name)) (fun _ => Holding R)
    (Left ops request s₀) :=
  exits_bind (exits_indexed plain i) fun name =>
  exits_given fun fits => exits_put (storable name fits) (typed name)

theorem exits_report {entry : Nat → α → Handler ω Unit} {entries : List α}
    (each : ∀ i, ∀ a ∈ entries, Exits (Holding R) (entry i a) (fun _ => Holding R)
      (Left ops request s₀)) :
    Exits (Holding R) (report entry entries) (fun _ => Holding R) (Left ops request s₀) := by
  refine exits_forM (I := fun _ => Holding R) fun before numbered after split =>
    each numbered.2 numbered.1 ?_
  have member : numbered ∈ entries.zipIdx := split ▸ List.mem_append_right before List.mem_cons_self
  exact List.fst_mem_of_mem_zipIdx member

/-- A response is sent, or there is no room for it. -/
theorem respond_cases (request : Request) (type : String) {s : Server ω} (built : Built s.buffer) :
    respond request type s = .error .exhausted s ∨
      respond request type s = .error (.answer ⟨packetId type, request.seq,
        payloadBytes (s.buffer ++ [payloadPutTerm])⟩)
        { s with buffer := s.buffer ++ [payloadPutTerm] } ∧
        Readable (payloadBytes (s.buffer ++ [payloadPutTerm])) := by
  rcases put_cases payloadPutTerm s with full | ⟨added, room⟩
  · left
    simp only [respond, run_bind, full]
  · right
    have passes := check_built built (by omega) (Nat.lt_succ_self _)
    refine ⟨?_, room, _, passes⟩
    simp only [respond, run_bind, added, run_get]
    rw [if_pos passes]
    rfl

/-- The message that ends a response, as it is cut off. -/
def messageElement (message : CString) : Element := payloadPutStr (text "msg") (some (message.take 255))

theorem storable_message (message : CString) : Storable (messageElement message) := by
  refine storable_str ⟨by decide, by decide⟩ ?_
  rw [Option.getD_some, List.length_take]
  omega

/-- The message and the terminator end the response. -/
theorem say_cases (request : Request) (type : String) (message : CString) {s : Server ω}
    (built : Built s.buffer) :
    (∃ s', say request type message s = .error .exhausted s') ∨
      say request type message s =
        .error (.answer ⟨packetId type, request.seq,
          payloadBytes (s.buffer ++ [messageElement message] ++ [payloadPutTerm])⟩)
        { s with buffer := s.buffer ++ [messageElement message] ++ [payloadPutTerm] } ∧
      Readable (payloadBytes (s.buffer ++ [messageElement message] ++ [payloadPutTerm])) := by
  have whole : Built (s.buffer ++ [messageElement message]) :=
    built_add built (storable_message message) (by simp [messageElement, payloadPutStr])
  have order : (say request type message : Handler ω Unit) =
      put (messageElement message) >>= fun _ => respond request type := rfl
  rw [order, run_bind]
  rcases put_cases (messageElement message) s with full | ⟨added, -⟩
  · exact .inl ⟨s, by rw [full]⟩
  · rw [added]
    rcases respond_cases request type (s :=
      { s with buffer := s.buffer ++ [messageElement message] }) whole with full | sent
    · exact .inl ⟨_, full⟩
    · exact .inr sent

private theorem kinds_apart : ∀ kind ∈ kinds, ∀ other ∈ kinds, packetId kind = packetId other →
    kind = other := by decide

theorem exits_say {kind : String} (known : kind ∈ kinds) (message : CString)
    (next : ∀ t w, R t w → t = tracingAfter s₀.tracing request)
    (unchanged : kind = "MALF" ∨ kind = "USUP" → ∀ t w, R t w → w = quiet ops request s₀) :
    Exits (Holding R) (say request kind message) (fun _ _ => False) (Left ops request s₀) := by
  refine ⟨fun s holding a s' ran => ?_, fun s holding e s' ran => ?_⟩
  · rcases say_cases request kind message holding.1 with ⟨t, full⟩ | ⟨sent, -⟩
    · rw [full] at ran
      cases ran
    · rw [sent] at ran
      cases ran
  · rcases say_cases request kind message holding.1 with ⟨t, full⟩ | ⟨sent, readable⟩
    · rw [full] at ran
      cases ran
      exact .exhausted
    · rw [sent] at ran
      cases ran
      refine .answer ⟨rfl, ⟨kind, known, rfl⟩, readable, next _ _ holding.2, fun quietly => ?_⟩
      refine unchanged ?_ _ _ holding.2
      exact quietly.imp (kinds_apart kind known "MALF" (by decide))
        (kinds_apart kind known "USUP" (by decide))

/-- A handler that says that it has, or has not, done its work. -/
theorem exits_okay (message : CString) (next : ∀ t w, R t w → t = tracingAfter s₀.tracing request) :
    Exits (Holding R) (okay request message) (fun _ _ => False) (Left ops request s₀) :=
  exits_say (by decide) message next fun other => absurd other (by decide)

theorem exits_fail (message : CString) (next : ∀ t w, R t w → t = tracingAfter s₀.tracing request) :
    Exits (Holding R) (fail request message) (fun _ _ => False) (Left ops request s₀) :=
  exits_say (by decide) message next fun other => absurd other (by decide)

/-! ## Reading fields -/

/-- In a payload that was accepted every search ends. -/
theorem get_ends (type : PayloadType) (name : CString) (sound : checked request = some true) :
    (payloadGet type request.payload name (request.length.toNat + 1)).value ≠ none := by
  have chain := accepted_iff_chain.mp ⟨_, sound⟩
  have ends : (payloadFind request.payload name (request.length.toNat + 1)).value ≠ none :=
    find_ends name chain (Nat.lt_succ_self _)
  have typed : (payloadFindTyped request.payload name type (request.length.toNat + 1)).value ≠ none := by
    rw [payloadFindTyped, value_bind]
    split
    · rename_i missing
      exact absurd missing ends
    · exact Option.some_ne_none _
    · rw [value_bind]
      split <;> exact Option.some_ne_none _
  rw [payloadGet, value_bind]
  split
  · rename_i missing
    exact absurd missing typed
  · exact Option.some_ne_none _
  · exact Option.some_ne_none _

/-- Until the fields have been read, the server is as the request found it. -/
def Still (ops : Operations ω) (request : Request) (s₀ : Server ω) (R : Bool → ω → Prop) : Prop :=
  ∀ t w, R t w → t = tracingAfter s₀.tracing request ∧ w = quiet ops request s₀

theorem exits_readPtr (type : PayloadType) (name : CString) (sound : checked request = some true)
    (still : Still ops request s₀ R) :
    Exits (Holding R) (readPtr request type name)
      (fun place s => (payloadGet type request.payload name (request.length.toNat + 1)).value =
        some (some place) ∧ Holding R s)
      (Left ops request s₀) := by
  rw [readPtr]
  split
  · rename_i missing
    exact absurd missing (get_ends type name sound)
  · rename_i place found
    exact exits_pure fun s holding => ⟨found, holding⟩
  · refine exits_bind (exits_say (by decide) _ (fun t w holds => (still t w holds).1) fun _ t w
      holds => (still t w holds).2) fun _ => ?_
    exact exits_throw fun _ impossible => impossible.elim

theorem exits_readU32 (name : String) (sound : checked request = some true)
    (still : Still ops request s₀ R) :
    Exits (Holding R) (readU32 request name)
    (fun value s => fieldU32 request name = some value ∧ Holding R s) (Left ops request s₀) :=
  exits_bind (exits_readPtr .u32 (text name) sound still) fun place =>
    exits_given fun found => exits_pure fun s holding => ⟨by simp only [fieldU32, found], holding⟩

theorem exits_readU64 (name : String) (sound : checked request = some true)
    (still : Still ops request s₀ R) :
    Exits (Holding R) (readU64 request name) (fun _ => Holding R) (Left ops request s₀) :=
  exits_bind (exits_readPtr .u64 (text name) sound still) fun _ =>
  exits_given fun _ => exits_pure fun _ holding => holding

theorem exits_readStr (name : CString) (sound : checked request = some true)
    (still : Still ops request s₀ R) :
    Exits (Holding R) (readStr request name) (fun _ => Holding R) (Left ops request s₀) :=
  exits_bind (exits_readPtr .str name sound still) fun _ =>
  exits_given fun _ => exits_pure fun _ holding => holding

/-! ## Calls -/

/-- A call comes to its end, or the server comes down. -/
theorem exits_returns : Exits (Holding R) (returns ops) (fun _ => Holding R) (Left ops request s₀) := by
  refine exits_get fun s holding => ?_
  split
  · rename_i down
    refine exits_throw fun t same => .aborted ?_
    rw [same, down]
  · refine exits_pure fun t same => ?_
    rwa [same]

theorem exits_change {f : ω → ω} (kept : ∀ t w, R t w → S t (f w)) :
    Exits (Holding R) (change ops f) (fun _ => Holding S) (Left ops request s₀) :=
  exits_bind (exits_modify fun _ holding => ⟨holding.1, kept _ _ holding.2⟩) fun _ => exits_returns

theorem exits_call {f : ω → α × ω} (kept : ∀ t w, R t w → S t (f w).2) :
    Exits (Holding R) (call ops f) (fun _ => Holding S) (Left ops request s₀) :=
  exits_get fun _ holding => exits_bind (exits_set (Q :=
    fun _ => Holding S) ⟨holding.1, kept _ _ holding.2⟩) fun _ =>
    exits_bind exits_returns fun _ => exits_pure fun _ holding => holding

/-- Only the tracing flag is known. -/
def Flag (tracing : Bool) : Bool → ω → Prop := fun t _ => t = tracing

theorem exits_stateTracingSet (state : Bool)
    (kept : ∀ t w, R t w → S state (if t = state then w else if state then ops.processContinueAll w
      else ops.processStopAll w)) :
    Exits (Holding R) (stateTracingSet ops state) (fun _ => Holding S) (Left ops request s₀) := by
  refine exits_get fun s holding => ?_
  have result := kept _ _ holding.2
  split
  · rename_i same
    rw [if_pos same] at result
    refine exits_pure ?_
    rintro t rfl
    exact ⟨holding.1, same ▸ result⟩
  · rename_i other
    rw [if_neg other] at result
    exact exits_bind (exits_set (Q := fun _ => Holding S) ⟨holding.1, result⟩) fun _ => exits_returns

/-- `process_get` in a handler. -/
theorem exits_withProcess (pid : Word) (message : CString)
    (flag : ∀ t w, R t w → t = tracingAfter s₀.tracing request)
    (found : ∀ t w v, R t w → ops.processGet pid w = some v → S t v) :
    Exits (Holding R) (withProcess ops request pid message) (fun _ => Holding S)
    (Left ops request s₀) := by
  refine exits_get fun s holding => ?_
  split
  · refine exits_bind ((exits_fail message flag).strengthen ?_) fun _ =>
      exits_throw fun _ impossible => impossible.elim
    rintro t rfl
    exact holding
  · rename_i rest get
    refine exits_modify ?_
    rintro t rfl
    exact ⟨holding.1, found _ _ _ holding.2 get⟩

theorem exits_withInjectable (fits : Fits ops) (iid : Word)
    (flag : ∀ t w, R t w → t = tracingAfter s₀.tracing request) :
    Exits (Holding R) (withInjectable ops request iid)
    (fun injectable s => Injectable.Fits injectable ∧ Holding R s) (Left ops request s₀) := by
  refine exits_read fun s _ => ?_
  split
  · exact exits_bind (exits_fail _ flag) fun _ => exits_throw fun _ impossible => impossible.elim
  · rename_i injectable found
    exact exits_pure fun t holding => ⟨fits.injectableGet iid _ injectable found, holding⟩

end Parts

/-! ## The handlers -/

/-- The server as the request finds it, with an empty response. -/
def Start (s₀ : Server ω) : Bool → ω → Prop := fun t w => t = s₀.tracing ∧ w = s₀.rest

/-- A request that is accepted and leaves the tracing flag alone. -/
structure Ordinary (ops : Operations ω) (request : Request) (s₀ : Server ω) : Prop where
  sound : checked request = some true
  tracing : tracingAfter s₀.tracing request = s₀.tracing
  rest : quiet ops request s₀ = s₀.rest

/-! ## Regions -/

/-- What every part of a list is mapped to. -/
private theorem of_mapM_some {f : α → Option β} {l : List α} {bs : List β}
    (mapped : l.mapM f = some bs) :
    ∀ b ∈ bs, ∃ a ∈ l, f a = some b := by
  induction l generalizing bs with
  | nil =>
    cases mapped
    simp
  | cons a rest ih =>
    simp only [List.mapM_cons, Option.bind_eq_bind, Option.bind_eq_some_iff] at mapped
    obtain ⟨b, here, later, others, same⟩ := mapped
    cases same
    intro c member
    rcases List.mem_cons.mp member with rfl | other
    · exact ⟨a, List.mem_cons_self, here⟩
    · obtain ⟨d, among, there⟩ := ih others c other
      exact ⟨d, List.mem_cons_of_mem _ among, there⟩

private theorem of_mapM_none {f : α → Option β} {l : List α} (mapped : l.mapM f = none) :
    ∃ a ∈ l, f a = none := by
  by_contra all
  simp only [not_exists, not_and] at all
  suffices some_ : ∃ bs, l.mapM f = some bs by
    obtain ⟨bs, here⟩ := some_
    rw [mapped] at here
    cases here
  clear mapped
  induction l with
  | nil => exact ⟨[], rfl⟩
  | cons a rest ih =>
    obtain ⟨bs, later⟩ := ih fun b member => all b (List.mem_cons_of_mem _ member)
    obtain ⟨b, here⟩ := Option.ne_none_iff_exists'.mp (all a List.mem_cons_self)
    exact ⟨b :: bs, by rw [List.mapM_cons, here, later]; rfl⟩

/-- A region whose strings are in the memory of the server. -/
structure Short (region : Region) : Prop where
  file : (region.file.getD []).length + 1 < 2 ^ 32
  type : (text region.type).length + 1 < 2 ^ 32

private theorem short_natural {segment : Segment}
    (short : ∀ name, segment.filename = some name → name.length + 1 < 2 ^ 32) :
    Short ⟨"natural", segment.start, segment.stop, segment.filename, segment.offset⟩ := by
  refine ⟨?_, show (text "natural").length + 1 < 2 ^ 32 by decide⟩
  show (segment.filename.getD []).length + 1 < 2 ^ 32
  rcases named : segment.filename with _ | name
  · decide
  · exact short name named

private theorem segment_short {segment : Segment}
    (short : ∀ name, segment.filename = some name → name.length + 1 < 2 ^ 32)
    {regions : List Region} (reported : segmentRegions segment = some regions) :
    ∀ region ∈ regions, Short region := by
  rw [segmentRegions] at reported
  split at reported
  · obtain rfl := Option.some.inj reported
    intro region member
    exact List.mem_singleton.mp member ▸ short_natural short
  · obtain ⟨injection, -, rfl⟩ := Option.map_eq_some_iff.mp reported
    intro region member
    rcases List.mem_pair.mp member with rfl | rfl
    · exact short_natural short
    · refine ⟨?_, show (text "trampoline").length + 1 < 2 ^ 32 by decide⟩
      simp only [Option.getD_some, List.length_take]
      omega

/-- The regions of a process. -/
theorem regions_short (fits : Fits ops) {pid : Word} {w w' : ω} {natural : List (List Region)}
    (reported : (ops.segments pid w).mapM segmentRegions = some natural) :
    ∀ region ∈ natural.flatten ++ (ops.injections pid w').map injectionRegion, Short region := by
  intro region member
  rcases List.mem_append.mp member with segmented | injected
  · obtain ⟨regions, among, inside⟩ := List.mem_flatten.mp segmented
    obtain ⟨segment, here, its⟩ := of_mapM_some reported regions among
    exact segment_short (fits.segments pid _ segment here) its region inside
  · obtain ⟨injection, among, rfl⟩ := List.mem_map.mp injected
    exact ⟨fits.injections pid _ injection among, show (text "injection").length + 1 < 2 ^ 32 by decide⟩

theorem exits_reportRegion {R : Bool → ω → Prop} (i : Nat) {region : Region} (short : Short region) :
    Exits (Holding R) (reportRegion i region) (fun _ => Holding R) (Left ops request s₀) := by
  refine exits_bind (exits_indexed (by decide) i) fun name =>
    exits_given fun fits => exits_bind (exits_u64 fits _) fun _ => ?_
  refine exits_bind (exits_indexed (by decide) i) fun name =>
    exits_given fun fits => exits_bind (exits_u64 fits _) fun _ => ?_
  refine exits_bind (exits_indexed (by decide) i) fun name =>
    exits_given fun fits => exits_bind (exits_str fits short.type) fun _ => ?_
  refine exits_bind (exits_indexed (by decide) i) fun name =>
    exits_given fun fits => exits_bind (exits_str fits short.file) fun _ => ?_
  exact exits_numbered (by decide) i (fun name fits => storable_u32 fits _) (by simp [payloadPutU32])

section Handlers

variable (ordinary : Ordinary ops request s₀)
include ordinary

private theorem ordinary_still : Still ops request s₀ (Start s₀) :=
  fun _ _ ⟨tracing, rest⟩ => ⟨tracing.trans ordinary.tracing.symm, rest.trans ordinary.rest.symm⟩

private theorem ordinary_flag : ∀ t (w : ω), Flag s₀.tracing t w → t = tracingAfter s₀.tracing request :=
  fun _ _ flag => flag.trans ordinary.tracing.symm

private theorem ordinary_start : ∀ t w, Start s₀ t w → t = tracingAfter s₀.tracing request :=
  fun _ _ start => start.1.trans ordinary.tracing.symm

theorem exits_handleATTC : Exits (Holding (Start s₀)) (handleATTC ops request) (fun _ _ => False)
    (Left ops request s₀) := by
  refine exits_bind (exits_readU32 "pid" ordinary.sound (ordinary_still ordinary)) fun pid =>
    exits_given fun _ => ?_
  refine exits_read fun s _ => exits_bind (exits_call (S :=
    Flag s₀.tracing) fun _ _ start => start.1) fun attached => ?_
  split
  · exact exits_okay _ (ordinary_flag ordinary)
  · exact exits_fail _ (ordinary_flag ordinary)

/-- The handlers that change one process. -/
private theorem exits_process (pid : Word) (message : CString) (f : ω → ω) (done : CString) :
    Exits (Holding (Start s₀)) (do
      withProcess ops request pid message
      change ops f
      change ops (ops.processPut pid)
      okay request done) (fun _ _ => False) (Left ops request s₀) := by
  refine exits_bind (exits_withProcess (S :=
    Flag s₀.tracing) pid _ (ordinary_start ordinary) fun _ _ _ start _ => start.1) fun _ => ?_
  refine exits_bind (exits_change (S := Flag s₀.tracing) fun _ _ flag => flag) fun _ => ?_
  exact exits_bind (exits_change (S := Flag s₀.tracing) fun _ _ flag => flag) fun _ =>
    exits_okay _ (ordinary_flag ordinary)

theorem exits_handleDETC : Exits (Holding (Start s₀)) (handleDETC ops request) (fun _ _ => False)
    (Left ops request s₀) :=
  exits_bind (exits_readU32 "pid" ordinary.sound (ordinary_still ordinary)) fun _ => exits_given fun _ =>
    exits_process ordinary _ _ _ _

theorem exits_handleKILL : Exits (Holding (Start s₀)) (handleKILL ops request) (fun _ _ => False)
    (Left ops request s₀) :=
  exits_bind (exits_readU32 "pid" ordinary.sound (ordinary_still ordinary)) fun _ => exits_given fun _ =>
    exits_process ordinary _ _ _ _

/-- As long as the block has room, every argument is read. -/
private theorem exits_readArgv {slots left i : Nat} (room : i + left ≤ slots ∨ Breaks ops request s₀) :
    Exits (Holding (Start s₀)) (readArgv request slots left i) (fun _ => Holding (Start s₀))
    (Left ops request s₀) := by
  induction left generalizing i with
  | zero => exact exits_pure fun _ holding => holding
  | succ left ih =>
    refine exits_bind (exits_indexed (by decide) i) fun name => exits_given fun _ => ?_
    split
    · refine exits_bind (exits_readStr name ordinary.sound (ordinary_still ordinary)) fun argument => ?_
      exact exits_bind (ih (room.imp_left fun fits => by omega)) fun later =>
        exits_pure fun _ holding => holding
    · rename_i full
      exact exits_throw fun _ _ => .broken (room.resolve_left fun fits => by omega)

omit ordinary in
/-- There is memory for a block, or the server breaks. -/
private theorem exits_adbiMalloc (size : Nat) (breaks : ops.allocates size s₀.rest = false →
      Breaks ops request s₀) :
    Exits (Holding (Start s₀)) (adbiMalloc ops size) (fun _ => Holding (Start s₀))
    (Left ops request s₀) := by
  refine exits_read fun s holding => ?_
  split
  · rename_i refused
    refine exits_throw fun _ _ => .broken (breaks ?_)
    rw [← holding.2.2]
    simpa using refused
  · exact exits_pure fun _ holding => holding

theorem exits_handleSPWN (asks : Asks request "SPWN") :
    Exits (Holding (Start s₀)) (handleSPWN ops request) (fun _ _ => False) (Left ops request s₀) := by
  refine exits_bind (exits_readU32 "argc" ordinary.sound (ordinary_still ordinary)) fun argc =>
    exits_given fun given => ?_
  have room : argc.toNat < (argc.toNat + 1) % 2 ^ 30 ∨ Breaks ops request s₀ := by
    by_cases many : 2 ^ 30 ≤ argc.toNat + 1
    · exact .inr (.arguments argc asks given many)
    · exact .inl (by omega)
  refine exits_bind (exits_adbiMalloc _ fun refused => .unallocated argc asks given refused) fun _ => ?_
  refine exits_bind (exits_readArgv ordinary (room.imp_left fun fits => by omega)) fun argv => ?_
  split
  · refine exits_read fun s _ =>
      exits_bind (exits_call (S := Flag s₀.tracing) fun _ _ start => start.1) fun spawned => ?_
    split
    · exact exits_okay _ (ordinary_flag ordinary)
    · exact exits_fail _ (ordinary_flag ordinary)
  · rename_i full
    exact exits_throw fun _ _ => .broken (room.resolve_left full)

theorem exits_handlePROC : Exits (Holding (Start s₀)) (handlePROC ops request) (fun _ _ => False)
    (Left ops request s₀) := by
  refine exits_read fun s _ => exits_bind (exits_report fun i pid _ => ?_) fun _ => ?_
  · exact exits_numbered (by decide) i (fun name fits => storable_u32 fits pid) (by simp [payloadPutU32])
  · exact exits_bind (exits_u32 ⟨by decide, by decide⟩ _) fun _ => exits_okay _ (ordinary_start ordinary)

/-- What an unloading answers, with the tracees running again if they ran before. -/
private theorem exits_unloaded (iid : Word) (res : Except CString Unit) :
    Exits (Holding (Flag s₀.tracing)) (match res with
      | .ok _ => okay request (text "Injectable " ++ decimal iid.toNat ++ text " unloaded.")
      | .error whynot => fail request (text "Error unloading injectable " ++ decimal iid.toNat ++
        text ": " ++ whynot ++ text "."))
      (fun _ _ => False) (Left ops request s₀) := by
  cases res with
  | ok _ => exact exits_okay _ (ordinary_flag ordinary)
  | error whynot => exact exits_fail _ (ordinary_flag ordinary)

theorem exits_handleINJU : Exits (Holding (Start s₀)) (handleINJU ops request) (fun _ _ => False)
    (Left ops request s₀) := by
  refine exits_bind (exits_readU32 "iid" ordinary.sound (ordinary_still ordinary)) fun iid =>
    exits_given fun _ => ?_
  refine exits_read fun s holding => ?_
  have tracing : s.tracing = s₀.tracing := holding.2.1
  dsimp only
  by_cases running : s.tracing = true
  · simp only [if_pos running]
    refine exits_bind (exits_stateTracingSet (S := Flag false) false fun _ _ _ => rfl) fun _ => ?_
    refine exits_bind (exits_call (S := Flag false) fun _ _ flag => flag) fun res => ?_
    refine exits_bind (exits_stateTracingSet (S :=
      Flag s₀.tracing) true fun _ _ _ => running.symm.trans tracing) fun _ => ?_
    exact exits_unloaded ordinary iid res
  · simp only [if_neg running]
    refine exits_bind (exits_call (S := Flag s₀.tracing) fun _ _ start => start.1) fun res => ?_
    exact exits_unloaded ordinary iid res

theorem exits_handleINJQ (fits : Fits ops) :
    Exits (Holding (Start s₀)) (handleINJQ ops request) (fun _ _ => False) (Left ops request s₀) := by
  refine exits_read fun s _ => exits_bind (exits_report fun i injectable member => ?_) fun _ => ?_
  · have strings := fits.injectables _ injectable member
    have comment : (injectable.comment.getD []).length + 1 < 2 ^ 32 := by
      rcases named : injectable.comment with _ | comment
      · decide
      · exact strings.comment comment named
    have kind : (text (if injectable.library then "library" else "handler")).length + 1 < 2 ^ 32 := by
      cases injectable.library <;> decide
    refine exits_bind (exits_indexed (by decide) i) fun name =>
      exits_given fun fits => exits_bind (exits_u32 fits _) fun _ => ?_
    refine exits_bind (exits_indexed (by decide) i) fun name =>
      exits_given fun fits => exits_bind (exits_str fits strings.filename) fun _ => ?_
    refine exits_bind (exits_indexed (by decide) i) fun name =>
      exits_given fun fits => exits_bind (exits_str fits kind) fun _ => ?_
    refine exits_bind (exits_indexed (by decide) i) fun name =>
      exits_given fun fits => exits_bind (exits_str fits strings.name) fun _ => ?_
    refine exits_bind (exits_indexed (by decide) i) fun name =>
      exits_given fun fits => exits_bind (exits_u32 fits _) fun _ => ?_
    exact exits_bind (exits_indexed (by decide) i) fun name =>
      exits_given fun fits => exits_str fits comment
  · exact exits_bind (exits_u32 ⟨by decide, by decide⟩ _) fun _ => exits_okay _ (ordinary_start ordinary)

theorem exits_handleINJT (fits : Fits ops) :
    Exits (Holding (Start s₀)) (handleINJT ops request) (fun _ _ => False) (Left ops request s₀) := by
  refine exits_bind (exits_readU32 "iid" ordinary.sound (ordinary_still ordinary)) fun iid =>
    exits_given fun _ => ?_
  refine exits_bind (exits_withInjectable fits iid (ordinary_start ordinary)) fun injectable =>
    exits_given fun _ => ?_
  refine exits_bind (exits_report fun i tracepoint _ => ?_) fun _ => ?_
  · refine exits_bind (exits_indexed (by decide) i) fun name =>
      exits_given fun fits => exits_bind (exits_u32 fits _) fun _ => ?_
    exact exits_numbered (by decide) i (fun name fits => storable_i32 fits _) (by simp [payloadPutI32])
  · exact exits_bind (exits_u32 ⟨by decide, by decide⟩ _) fun _ => exits_okay _ (ordinary_start ordinary)

/-- The listings of the symbols of an injectable. -/
theorem exits_handleSymbols (fits : Fits ops) {symbols : Injectable → List (CString × Word)}
    (short : ∀ injectable, Injectable.Fits injectable →
      ∀ symbol ∈ symbols injectable, symbol.1.length + 1 < 2 ^ 32) :
    Exits (Holding (Start s₀)) (handleSymbols ops request symbols) (fun _ _ => False)
    (Left ops request s₀) := by
  refine exits_bind (exits_readU32 "iid" ordinary.sound (ordinary_still ordinary)) fun iid =>
    exits_given fun _ => ?_
  refine exits_bind (exits_withInjectable fits iid (ordinary_start ordinary)) fun injectable =>
    exits_given fun strings => ?_
  refine exits_bind (exits_report fun i symbol member => ?_) fun _ => ?_
  · have named := short injectable strings symbol member
    refine exits_bind (exits_indexed (by decide) i) fun name =>
      exits_given fun fits => exits_bind (exits_str fits named) fun _ => ?_
    exact exits_numbered (by decide) i (fun name fits => storable_u32 fits _) (by simp [payloadPutU32])
  · exact exits_bind (exits_u32 ⟨by decide, by decide⟩ _) fun _ => exits_okay _ (ordinary_start ordinary)

theorem exits_handleLLEV : Exits (Holding (Start s₀)) (handleLLEV ops request) (fun _ _ => False)
    (Left ops request s₀) := by
  refine exits_bind (exits_readU32 "loglevel" ordinary.sound (ordinary_still ordinary))
    fun loglevel => exits_given fun _ => ?_
  exact exits_bind (exits_change (S := Flag s₀.tracing) fun _ _ start => start.1) fun _ =>
    exits_okay _ (ordinary_flag ordinary)

theorem exits_handlePING : Exits (Holding (Start s₀)) (handlePING request) (fun _ _ => False)
    (Left ops request s₀) :=
  exits_okay _ (ordinary_start ordinary)

theorem exits_handleQUIT : Exits (Holding (Start s₀)) (handleQUIT ops request) (fun _ _ => False)
    (Left ops request s₀) :=
  exits_bind (exits_change (S := Flag s₀.tracing) fun _ _ start => start.1) fun _ =>
  exits_okay _ (ordinary_flag ordinary)

theorem exits_handleLDIR (fits : Fits ops) :
    Exits (Holding (Start s₀)) (handleLDIR ops request) (fun _ _ => False) (Left ops request s₀) := by
  refine exits_bind (exits_readStr (text "path") ordinary.sound (ordinary_still ordinary)) fun path => ?_
  refine exits_read fun s _ => ?_
  split
  · exact exits_fail _ (ordinary_start ordinary)
  · rename_i entries listed
    refine exits_bind (exits_report fun i entry member => ?_) fun _ => ?_
    · have named := fits.directory _ _ entries listed entry member
      refine exits_bind (exits_indexed (by decide) i) fun name =>
        exits_given fun fits => exits_bind (exits_str fits named) fun _ => ?_
      exact exits_numbered (by decide) i (fun name fits => storable_u32 fits _) (by simp [payloadPutU32])
    · exact exits_bind (exits_u32 ⟨by decide, by decide⟩ _) fun _ =>
        exits_okay _ (ordinary_start ordinary)

theorem exits_handleADDR (fits : Fits ops) :
    Exits (Holding (Start s₀)) (handleADDR ops request) (fun _ _ => False) (Left ops request s₀) := by
  refine exits_bind (exits_readU32 "pid" ordinary.sound (ordinary_still ordinary)) fun pid =>
    exits_given fun _ => ?_
  refine exits_bind (exits_readU64 "address" ordinary.sound (ordinary_still ordinary)) fun address => ?_
  refine exits_bind (exits_withProcess (S :=
    Flag s₀.tracing) pid _ (ordinary_start ordinary) fun _ _ _ start _ => start.1) fun _ => ?_
  refine exits_read fun s _ => exits_bind (exits_u64 ⟨by decide, by decide⟩ address) fun _ => ?_
  refine exits_bind (exits_str ⟨by decide, by decide⟩ (fits.strAddress _ _ _)) fun _ => ?_
  exact exits_bind (exits_change (S := Flag s₀.tracing) fun _ _ flag => flag) fun _ =>
    exits_okay _ (ordinary_flag ordinary)

/-- After `process_get`, with the state that it leaves. -/
def Found (ops : Operations ω) (s₀ : Server ω) (pid : Word) : Bool → ω → Prop :=
  fun t w => t = s₀.tracing ∧ ops.processGet pid s₀.rest = some w

private theorem exits_found (pid : Word) (message : CString) :
    Exits (Holding (Start s₀)) (withProcess ops request pid message)
    (fun _ => Holding (Found ops s₀ pid)) (Left ops request s₀) := by
  refine exits_withProcess pid message (ordinary_start ordinary) fun t w v start found => ⟨start.1, ?_⟩
  rw [← start.2]
  exact found

theorem exits_handleMEMD (asks : Asks request "MEMD") :
    Exits (Holding (Start s₀)) (handleMEMD ops request) (fun _ _ => False) (Left ops request s₀) := by
  refine exits_bind (exits_readU32 "pid" ordinary.sound (ordinary_still ordinary)) fun pid =>
    exits_given fun given => ?_
  refine exits_bind (exits_readU64 "address" ordinary.sound (ordinary_still ordinary)) fun address => ?_
  refine exits_bind (exits_readU32 "size" ordinary.sound (ordinary_still ordinary)) fun size =>
    exits_given fun _ => ?_
  refine exits_bind (exits_found ordinary pid _) fun _ => exits_read fun s _ => ?_
  rw [processIsRunning_false]
  refine exits_read fun t holding => ?_
  split
  · rename_i idle
    exact exits_throw fun _ _ => .broken (.unstopped pid _ asks given holding.2.2 idle)
  · rename_i thread stopped
    refine exits_bind (exits_change (S := Flag s₀.tracing) fun _ _ found => found.1) fun _ => ?_
    refine exits_bind (exits_call (S := Flag s₀.tracing) fun _ _ flag => flag) fun data => ?_
    refine exits_bind (exits_report fun i _ _ =>
      exits_numbered (by decide) i (fun name fits => storable_u32 fits _) (by simp [payloadPutU32]))
        fun _ => ?_
    refine exits_bind (exits_u64 ⟨by decide, by decide⟩ address) fun _ =>
      exits_bind (exits_u32 ⟨by decide, by decide⟩ _) fun _ => ?_
    exact exits_bind (exits_change (S := Flag s₀.tracing) fun _ _ flag => flag) fun _ =>
      exits_okay _ (ordinary_flag ordinary)

theorem exits_handleMAPS (fits : Fits ops) (asks : Asks request "MAPS") :
    Exits (Holding (Start s₀)) (handleMAPS ops request) (fun _ _ => False) (Left ops request s₀) := by
  refine exits_bind (exits_readU32 "pid" ordinary.sound (ordinary_still ordinary)) fun pid =>
    exits_given fun given => ?_
  refine exits_bind (exits_found ordinary pid _) fun _ => exits_read fun s holding => ?_
  split
  · rename_i bare
    obtain ⟨segment, among, missing⟩ := of_mapM_none bare
    rw [segmentRegions] at missing
    split at missing
    · cases missing
    · rename_i trampolines
      exact exits_throw fun _ _ =>
        .broken (.bare pid _ segment asks given holding.2.2 among trampolines
          (Option.map_eq_none_iff.mp missing))
  · rename_i natural reported
    refine exits_read fun t _ =>
      exits_bind (exits_report fun i region member => exits_reportRegion i ?_) fun _ => ?_
    · exact regions_short fits reported region member
    · refine exits_bind (exits_u32 ⟨by decide, by decide⟩ _) fun _ => ?_
      refine exits_bind (exits_change (S := Flag s₀.tracing) fun _ _ found => found.1) fun _ =>
        exits_okay _ (ordinary_flag ordinary)

end Handlers

/-! ## Requests about the tracing flag -/

theorem exits_handleSTRT (next : tracingAfter s₀.tracing request = true) :
    Exits (Holding (Start s₀)) (handleSTRT ops request) (fun _ _ => False) (Left ops request s₀) := by
  refine exits_read fun s holding => ?_
  dsimp only
  split
  · rename_i running
    refine exits_bind (exits_fail _ fun _ _ start => ?_) fun _ =>
      ⟨fun _ impossible => impossible.elim, fun _ impossible => impossible.elim⟩
    rw [start.1, next, ← holding.2.1, running]
  · exact exits_bind (exits_stateTracingSet (S := Flag true) true fun _ _ _ => rfl) fun _ =>
      exits_okay _ fun _ _ flag => flag.trans next.symm

theorem exits_handleSTOP (next : tracingAfter s₀.tracing request = false) :
    Exits (Holding (Start s₀)) (handleSTOP ops request) (fun _ _ => False) (Left ops request s₀) := by
  refine exits_read fun s holding => ?_
  dsimp only
  split
  · rename_i stopped
    refine exits_bind (exits_fail _ fun _ _ start => ?_) fun _ =>
      ⟨fun _ impossible => impossible.elim, fun _ impossible => impossible.elim⟩
    rw [start.1, next, ← holding.2.1]
    simpa using stopped
  · exact exits_bind (exits_stateTracingSet (S := Flag false) false fun _ _ _ => rfl) fun _ =>
      exits_okay _ fun _ _ flag => flag.trans next.symm

/-- Loading an injectable leaves the tracees stopped, also where the request has no path. -/
theorem exits_handleINJL (asks : Asks request "INJL") (next : tracingAfter s₀.tracing request = false) :
    Exits (Holding (Start s₀)) (handleINJL ops request) (fun _ _ => False) (Left ops request s₀) := by
  let Stopped : Bool → ω → Prop := fun t w => t = false ∧ w = quiet ops request s₀
  have still : Still ops request s₀ Stopped := fun _ _ stopped => ⟨stopped.1.trans next.symm, stopped.2⟩
  have flag : ∀ t (w : ω), Flag false t w → t = tracingAfter s₀.tracing request :=
    fun _ _ flag => flag.trans next.symm
  have never {α : Type} (x : Handler ω α) :
      Exits (fun _ => False) x (fun _ _ => False) (Left ops request s₀) :=
    ⟨fun _ impossible => impossible.elim, fun _ impossible => impossible.elim⟩
  refine exits_read fun s holding => ?_
  have tracing : s.tracing = s₀.tracing := holding.2.1
  dsimp only
  by_cases running : s.tracing = true
  · simp only [if_pos running]
    have stops : quiet ops request s₀ = ops.processStopAll s₀.rest := if_pos ⟨asks, tracing ▸ running⟩
    refine exits_bind (exits_stateTracingSet (S := Stopped) false fun t w start => ⟨rfl, ?_⟩) fun _ => ?_
    · rw [if_neg (by rw [start.1, ← tracing, running]; decide), start.2, stops]
      rfl
    refine exits_bind (exits_readStr (text "path") asks.1 still) fun path => ?_
    refine exits_bind (exits_call (S := Flag false) fun _ _ stopped => stopped.1) fun loaded => ?_
    cases loaded with
    | ok injectable => exact exits_bind (exits_okay _ flag) fun _ => never _
    | error whynot => exact exits_bind (exits_fail _ flag) fun _ => never _
  · simp only [if_neg running]
    have stays : quiet ops request s₀ = s₀.rest := if_neg fun both => running (tracing.trans both.2)
    have start : ∀ t w, Start s₀ t w → Stopped t w := fun t w start =>
      ⟨start.1.trans (tracing ▸ Bool.not_eq_true _ ▸ running), start.2.trans stays.symm⟩
    refine exits_bind ((exits_readStr (text "path") asks.1 still).strengthen fun s holding =>
      holding.imp start) fun path => ?_
    refine exits_bind (exits_call (S := Flag false) fun _ _ stopped => stopped.1) fun loaded => ?_
    cases loaded with
    | ok injectable => exact exits_bind (exits_okay _ flag) fun _ => never _
    | error whynot => exact exits_bind (exits_fail _ flag) fun _ => never _

/-! ## A packet -/

/-- The types of requests. -/
def types : List String :=
  ["ATTC", "DETC", "SPWN", "KILL", "PROC", "INJL", "INJU", "INJQ", "INJE", "INJI", "INJA", "INJT",
    "LLEV", "STRT", "STOP", "QUIT",
    "ADDR", "MEMD", "MAPS", "LDIR", "PING"]

private theorem handlers_types (ops : Operations ω) (request : Request) :
    (handlers ops request).map Prod.fst = types := rfl

private theorem types_apart : ∀ type ∈ types, ∀ special ∈ ["STRT", "STOP", "INJL"], packetId type =
    packetId special → type = special := by
  decide

/-- All but three types of requests leave the tracing flag alone. -/
theorem ordinary_of_asks {type : String} (asks : Asks request type) (known : type ∈ types)
    (other : type ∉ ["STRT", "STOP", "INJL"]) :
    Ordinary ops request s₀ := by
  have not_asks : ∀ special ∈ ["STRT", "STOP", "INJL"], ¬Asks request special :=
    fun special among also =>
    other (types_apart type known special among (asks.2.symm.trans also.2) ▸ among)
  have start := not_asks "STRT" (by simp)
  have stop := not_asks "STOP" (by simp)
  have load := not_asks "INJL" (by simp)
  refine ⟨asks.1, ?_, if_neg fun both => load both.1⟩
  rw [tracingAfter, if_neg start, if_neg (not_or.mpr ⟨stop, load⟩)]

private theorem tracing_started (asks : Asks request "STRT") :
    tracingAfter s₀.tracing request = true := if_pos asks

private theorem tracing_stopped {type : String} (asks : Asks request type)
    (stops : type = "STOP" ∨ type = "INJL") :
    tracingAfter s₀.tracing request = false := by
  have start : ¬Asks request "STRT" := fun also => by
    have same := asks.2.symm.trans also.2
    rcases stops with rfl | rfl
    · exact absurd same (by decide)
    · exact absurd same (by decide)
  rw [tracingAfter, if_neg start]
  refine if_pos ?_
  rcases stops with rfl | rfl
  · exact .inl asks
  · exact .inr asks

/-- The handlers by the types of their requests. -/
theorem exits_handlers (fits : Fits ops) {entry : String × Handler ω Unit}
    (among : entry ∈ handlers ops request) (asks : Asks request entry.1) :
    Exits (Holding (Start s₀)) entry.2 (fun _ _ => False) (Left ops request s₀) := by
  have ordinary (type : String) (asks : Asks request type) (plain : type ∈ types ∧
      type ∉ ["STRT", "STOP", "INJL"]) :
      Ordinary ops request s₀ := ordinary_of_asks asks plain.1 plain.2
  simp only [handlers, List.mem_cons, List.not_mem_nil, or_false] at among
  rcases among with rfl | rfl | rfl | rfl | rfl | rfl | rfl | rfl | rfl | rfl | rfl | rfl | rfl |
    rfl | rfl | rfl | rfl | rfl | rfl | rfl | rfl
  · exact exits_handleATTC (ordinary "ATTC" asks (by decide))
  · exact exits_handleDETC (ordinary "DETC" asks (by decide))
  · exact exits_handleSPWN (ordinary "SPWN" asks (by decide)) asks
  · exact exits_handleKILL (ordinary "KILL" asks (by decide))
  · exact exits_handlePROC (ordinary "PROC" asks (by decide))
  · exact exits_handleINJL asks (tracing_stopped asks (.inr rfl))
  · exact exits_handleINJU (ordinary "INJU" asks (by decide))
  · exact exits_handleINJQ (ordinary "INJQ" asks (by decide)) fits
  · exact exits_handleSymbols (ordinary "INJE" asks (by decide)) fits fun _ strings => strings.exports
  · exact exits_handleSymbols (ordinary "INJI" asks (by decide)) fits fun _ strings => strings.imports
  · exact exits_handleSymbols (ordinary "INJA" asks (by decide)) fits fun _ strings => strings.adbi
  · exact exits_handleINJT (ordinary "INJT" asks (by decide)) fits
  · exact exits_handleLLEV (ordinary "LLEV" asks (by decide))
  · exact exits_handleSTRT (tracing_started asks)
  · exact exits_handleSTOP (tracing_stopped asks (.inl rfl))
  · exact exits_handleQUIT (ordinary "QUIT" asks (by decide))
  · exact exits_handleADDR (ordinary "ADDR" asks (by decide)) fits
  · exact exits_handleMEMD (ordinary "MEMD" asks (by decide)) asks
  · exact exits_handleMAPS (ordinary "MAPS" asks (by decide)) fits asks
  · exact exits_handleLDIR (ordinary "LDIR" asks (by decide)) fits
  · exact exits_handlePING (ordinary "PING" asks (by decide))

/-- A request that no handler is for changes nothing. -/
private theorem unknown_quiet (ops : Operations ω) (s₀ : Server ω)
    (unknown : ∀ type ∈ types, ¬Asks request type) :
    tracingAfter s₀.tracing request = s₀.tracing ∧ quiet ops request s₀ = s₀.rest := by
  have start := unknown "STRT" (by decide)
  have stop := unknown "STOP" (by decide)
  have load := unknown "INJL" (by decide)
  refine ⟨?_, if_neg fun both => load both.1⟩
  rw [tracingAfter, if_neg start, if_neg (not_or.mpr ⟨stop, load⟩)]

/-- Every packet is answered, but for what breaks or exhausts the server, or brings it down in a call. -/
theorem handlePacket_left (fits : Fits ops) (request : Request) (s : Server ω) :
    ∃ e s', handlePacket ops request s = .error e s' ∧ Left ops request s e s' := by
  suffices ends : Exits (fun t => t = s) (handlePacket ops request) (fun _ _ => False)
      (Left ops request s) from ends.not_normal rfl
  rw [handlePacket]
  refine exits_bind (Q := fun _ => Holding (Start s)) (exits_modify ?_) fun _ => ?_
  · rintro t rfl
    exact ⟨⟨by simp, by simp⟩, rfl, rfl⟩
  have unasked (wrong : checked request ≠ some true) :=
    unknown_quiet ops s fun type _ (asks : Asks request type) => wrong asks.1
  split
  · rename_i endless
    exact exits_throw fun _ _ => .broken (.endless endless)
  · rename_i refused
    have malformed : checked request = some false := refused
    obtain ⟨tracing, rest⟩ := unasked (by rw [malformed]; decide)
    exact exits_say (by decide) _ (fun _ _ start => start.1.trans tracing.symm) fun _ _ _ start =>
      start.2.trans rest.symm
  · rename_i sound
    split
    · rename_i entry found
      have type : packetId entry.1 = request.type := by simpa using List.find?_some found
      exact exits_handlers fits (List.mem_of_find?_eq_some found) ⟨sound, type.symm⟩
    · rename_i missing
      have absent := List.find?_eq_none.mp missing
      obtain ⟨tracing, rest⟩ := unknown_quiet ops s fun type known (asks : Asks request type) => by
        rw [← handlers_types ops request] at known
        obtain ⟨entry, among, rfl⟩ := List.mem_map.mp known
        exact absent entry among (by simpa using asks.2.symm)
      exact exits_say (by decide) _ (fun _ _ start => start.1.trans tracing.symm) fun _ _ _ start =>
        start.2.trans rest.symm

/-! ## A session -/

/-- Requests that are answered one after the other. -/
inductive Run (ops : Operations ω) : Server ω → List Request → List Response → Server ω → Prop where
  | done (s : Server ω) : Run ops s [] [] s
  | answer {request : Request} {requests : List Request} {response : Response}
      {responses : List Response} {s s' t : Server ω}
      (answers : Answers ops request s s' response) (later : Run ops s' requests responses t) :
      Run ops s (request :: requests) (response :: responses) t

theorem Run.tracing {requests : List Request} {responses : List Response} {s t : Server ω}
    (run : Run ops s requests responses t) :
    t.tracing = requests.foldl tracingAfter s.tracing := by
  induction run with
  | done => rfl
  | answer answers _ ih => rw [List.foldl_cons, ih, answers.tracing]

/-- What stops the server at a request: it breaks, a buffer is too small, or a function that is
called does not return. -/
inductive Stops (ops : Operations ω) (s : Server ω) (request : Request) : Prop where
  | breaks (breaks : Breaks ops request s)
  | exhausts {s' : Server ω} (exhausted : handlePacket ops request s = .error .exhausted s')
  | aborts {s' : Server ω} (aborted : handlePacket ops request s = .error .aborted s')
      (down : ops.aborted s'.rest = true)

/-- Every request is answered in turn, up to one that stops the server, and the
server is tracing after the requests that say so. -/
theorem session_answered (fits : Fits ops) (requests : List Request) (s : Server ω) :
    Run ops s (requests.take (session ops requests s).1.length)
    (session ops requests s).1 (session ops requests s).2 ∧
      (session ops requests s).2.tracing =
        (requests.take (session ops requests s).1.length).foldl tracingAfter s.tracing ∧
      ∀ request, requests[(session ops requests s).1.length]? = some request →
      Stops ops (session ops requests s).2 request := by
  suffices run : Run ops s (requests.take (session ops requests s).1.length)
      (session ops requests s).1 (session ops requests s).2 ∧
      ∀ request, requests[(session ops requests s).1.length]? = some request →
      Stops ops (session ops requests s).2 request from
    ⟨run.1, run.1.tracing, run.2⟩
  induction requests generalizing s with
  | nil => exact ⟨.done s, by simp⟩
  | cons request later ih =>
    obtain ⟨e, s', ran, left⟩ := handlePacket_left fits request s
    have stops (halts : Stops ops s request) (ends : session ops (request :: later) s = ([], s)) :
        Run ops s ((request :: later).take (session ops (request :: later) s).1.length)
          (session ops (request :: later) s).1
          (session ops (request :: later) s).2 ∧
        ∀ next, (request :: later)[(session ops (request :: later) s).1.length]? = some next →
          Stops ops (session ops (request :: later) s).2 next := by
      rw [ends]
      refine ⟨.done s, fun next here => ?_⟩
      obtain rfl := Option.some.inj here
      exact halts
    cases left with
    | @answer response s' answers =>
      obtain ⟨run, halts⟩ := ih s'
      have goes : session ops (request :: later) s =
          (response :: (session ops later s').1, (session ops later s').2) := by
        rw [session, ran]
      rw [goes]
      exact ⟨.answer answers run, halts⟩
    | broken breaks => exact stops (.breaks breaks) (by rw [session, ran])
    | exhausted => exact stops (.exhausts ran) (by rw [session, ran])
    | aborted down => exact stops (.aborts ran down) (by rw [session, ran])

/-- A server that is attached to nothing and can attach to nothing. -/
def idle : Operations Unit where
  aborted _ := false
  allocates _ _ := true
  processAttach _ _ w := (false, w)
  processSpawn _ _ w := (none, w)
  processGet _ _ := none
  processPut _ w := w
  processDetach _ w := w
  processKill _ w := w
  processes _ := []
  processContinueAll w := w
  processStopAll w := w
  processStop _ w := w
  processContinue _ w := w
  threads _ _ := []
  threadDup _ w := w
  memRead _ _ _ w := ([], w)
  segments _ _ := []
  injections _ _ := []
  strAddress _ _ _ := []
  injectableLoad _ w := (.error [], w)
  injectableUnload _ w := (.error [], w)
  injectables _ := []
  injectableGet _ _ := none
  loggerLevel _ w := w
  quit w := w
  directory _ _ := none

theorem idle_fits : Fits idle := by
  constructor <;> simp [idle]

/-- A request without fields. -/
def bareRequest (type : String) (seq : Word) : Request :=
  ⟨packetId type, seq, 9#32, SpawnProofs.holding [0, 0, 1, 0, 0, 0, 0, 0, 0]⟩

/-- Tracing is started, an injectable loaded from nowhere, and something unknown asked for. -/
def threeRequests : List Request := [bareRequest "STRT" 1, bareRequest "INJL" 2, bareRequest "NONE" 3]

/-- The load of an injectable without a path stops the tracees. -/
theorem three_requests_answered :
    Run idle ⟨false, (), []⟩ threeRequests (session idle threeRequests ⟨false, (), []⟩).1
      (session idle threeRequests ⟨false, (), []⟩).2 ∧
      (session idle threeRequests ⟨false, (), []⟩).1.map (fun response =>
        (response.type, response.seq)) =
        [(packetId "OKAY", 1), (packetId "MALF", 2), (packetId "USUP", 3)] ∧
      (session idle threeRequests ⟨false, (), []⟩).2.tracing = false :=
  have types : (session idle threeRequests ⟨false, (), []⟩).1.map (fun response =>
    (response.type, response.seq)) =
      [(packetId "OKAY", 1), (packetId "MALF", 2), (packetId "USUP", 3)] := by decide +kernel
  have count : (session idle threeRequests ⟨false, (), []⟩).1.length = 3 :=
    (List.length_map _).symm.trans (congrArg List.length types)
  have answered := session_answered idle_fits threeRequests ⟨false, (), []⟩
  have whole : threeRequests.take 3 = threeRequests := rfl
  ⟨by simpa only [count, whole] using answered.1, types, by rw [answered.2.1, count]; decide +kernel⟩

end Adbi.SessionProofs
