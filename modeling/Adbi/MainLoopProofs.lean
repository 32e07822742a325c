import Adbi.MainLoop

/-! The server handles every request and every status once, in order. Whether any is
left when it suspends depends on two loops that end too early: `wait_main` gives up
after 128 statuses, and `comm_got_data` reads one request. -/
namespace Adbi.MainLoopProofs
open Adbi.Lib Adbi.MainLoop

/-- The bytes of a request that is being read. -/
def inHand : Phase → Bytes
  | .head _ got => got
  | .payload _ head got => head ++ got
  | _ => []

/-- The statuses of one process. -/
def ofPid (pid : Nat) (statuses : List Status) : List Status :=
  statuses.filter fun status => status.pid = pid

/-- What has arrived is what has been handled, what is being read and what is left. -/
structure Accounted (s : State) : Prop where
  requests : ∀ c, s.link = .connected c →
      c.received = c.handled.flatMap Request.bytes ++ inHand s.phase ++ c.socket
  waiting : ∀ c, s.link = .listening (some c) → c.received = c.socket ∧ c.handled = []
  statuses : ∀ pid, ofPid pid s.changed = ofPid pid s.reaped ++ ofPid pid s.statuses

/-- A complete request stands in front of the bytes. -/
def Complete (bytes : Bytes) : Prop :=
  ∃ (request : Request) (rest : Bytes), bytes = request.bytes ++ rest

/-- The server waits for a signal, and none has come. -/
def Quiet (s : State) : Prop := s.phase = .suspended ∧ ∀ signal, s.pending signal = false

/-- No work is lost: all is accounted for, and none is left when the server waits. -/
structure Orderly (s : State) : Prop where
  accounted : Accounted s
  requestsDone : Quiet s → ∀ c, s.link = .connected c ∨ s.link = .listening (some c) →
      ¬ Complete c.socket
  statusesDone : Quiet s → s.statuses = []

/-! ## Accounts -/

private theorem ofPid_append (pid : Nat) (x y : List Status) :
    ofPid pid (x ++ y) = ofPid pid x ++ ofPid pid y := List.filter_append ..

/-- The first status of its process is the next one to be handled. -/
private theorem ofPid_eraseIdx {statuses : List Status} {i : Nat} {status : Status}
    (found : statuses[i]? = some status)
    (first : ∀ earlier ∈ statuses.take i, earlier.pid ≠ status.pid) (pid : Nat) :
    ofPid pid statuses = ofPid pid [status] ++ ofPid pid (statuses.eraseIdx i) := by
  obtain ⟨inside, here⟩ := List.getElem?_eq_some_iff.mp found
  have split : statuses = statuses.take i ++ ([status] ++ statuses.drop (i + 1)) := by
    rw [← here, List.singleton_append, List.getElem_cons_drop, List.take_append_drop]
  have erased : statuses.eraseIdx i = statuses.take i ++ statuses.drop (i + 1) :=
    List.eraseIdx_eq_take_drop_succ ..
  rw [erased, ofPid_append]
  conv_lhs => rw [split, ofPid_append, ofPid_append]
  by_cases same : status.pid = pid
  · have none_before : ofPid pid (statuses.take i) = [] := by
      rw [ofPid, List.filter_eq_nil_iff]
      intro earlier member
      simpa [← same] using first earlier member
    rw [none_before, List.nil_append, List.nil_append]
  · have other : ofPid pid [status] = [] := by simp [ofPid, same]
    rw [other, List.nil_append, List.nil_append]

/-- `waitpid` moves one status, and leaves the rest alone. -/
theorem reap_cases {s s' : State} {i : Nat} (reaped : s.reap i = .ok s') :
    ∃ statuses list, s' = { s with statuses := statuses, reaped := list } ∧
      (s.statuses = [] → statuses = []) ∧ ∀ pid, ofPid pid s.reaped ++ ofPid pid s.statuses =
        ofPid pid list ++ ofPid pid statuses := by
  unfold State.reap at reaped
  cases found : s.statuses[i]? with
  | none =>
    rw [found] at reaped
    cases reaped
  | some status =>
    rw [found] at reaped
    simp only at reaped
    split at reaped
    case isTrue first =>
      cases reaped
      refine ⟨_, _, rfl, ?_, ?_⟩
      · intro empty
        rw [empty]
        rfl
      · intro pid
        have moved := ofPid_eraseIdx found (by simpa using first) pid
        rw [moved, ofPid_append, List.append_assoc]
    case isFalse => cases reaped

private theorem accounted_reap {s s' : State} {i : Nat} (kept : Accounted s)
    (reaped : s.reap i = .ok s') : Accounted s' := by
  obtain ⟨statuses, list, rfl, _, same⟩ := reap_cases reaped
  exact ⟨kept.requests, kept.waiting, fun pid => (kept.statuses pid).trans (same pid)⟩

/-- Where neither the sockets nor the statuses change, nothing is read in between. -/
private theorem accounted_goto {s : State} (kept : Accounted s) (signals : Signals) (phase : Phase)
    (same : inHand phase = inHand s.phase) :
    Accounted { s with signals := signals, phase := phase } := by
  refine ⟨fun c connected => ?_, kept.waiting, kept.statuses⟩
  rw [same]
  exact kept.requests c connected

/-- What `comm_read_raw` takes from the socket it has in its hand. -/
private theorem accounted_read {s s' : State} {c : Connection} {site : Site} {count : Nat}
    {got : Bytes} {wait : Bool} {next : Bytes → Phase}
    {answer : Server} (kept : Accounted s) (connected : s.link = .connected c)
    (grows : ∀ more, inHand (next (got ++ more)) = inHand s.phase ++ more)
    (empty : (wait || got ≠ []) = false → inHand s.phase = [])
    (ran : commReadRaw s c site count got wait next answer = .ok s') : Accounted s' := by
  have all := kept.requests c connected
  cases answer with
  | read n =>
    simp only [commReadRaw] at ran
    split at ran
    case isTrue possible =>
      cases ran
      refine ⟨?_, (by simp), kept.statuses⟩
      rintro _ ⟨⟩
      simp only [grows, List.append_assoc, List.take_append_drop]
      rw [all, List.append_assoc]
    case isFalse => cases ran
  | wouldBlock =>
    simp only [commReadRaw] at ran
    split at ran
    case isTrue possible =>
      by_cases again : (wait || got ≠ []) = true
      · rw [if_pos again] at ran
        cases ran
        exact kept
      · rw [if_neg again] at ran
        cases ran
        exact accounted_goto kept s.signals (.afterIo site) (empty (Bool.eq_false_iff.mpr again)).symm
    case isFalse => cases ran
  | endOfStream listens =>
    simp only [commReadRaw] at ran
    split at ran
    case isTrue possible =>
      cases ran
      cases listens <;> exact ⟨(by simp [disconnect]), (by simp [disconnect]), kept.statuses⟩
    case isFalse => cases ran
  | _ => cases ran

private theorem accounted_environment {s s' : State} {e : Environment} (kept : Accounted s)
    (happened : environment s e = .ok s') :
    Accounted s' := by
  obtain ⟨link, pending, statuses, changed, reaped, signals, phase⟩ := s
  obtain ⟨requests, waiting, accounts⟩ := kept
  cases e with
  | connect =>
    match link, happened with
    | .listening none, rfl => exact ⟨(by simp [State.raise]), (by simp [State.raise]), accounts⟩
  | arrive bytes =>
    match link, happened with
    | .connected c, happened =>
      simp only [environment, arriveAt] at happened
      split at happened
      case isTrue => cases happened
      case isFalse =>
        cases happened
        have all := requests c rfl
        split <;> exact ⟨(by simp [State.raise, all]), (by simp [State.raise]), accounts⟩
    | .listening (some c), happened =>
      simp only [environment, arriveAt] at happened
      split at happened
      case isTrue => cases happened
      case isFalse =>
        cases happened
        have all := waiting c rfl
        split <;> exact ⟨(by simp [State.raise]), (by simp [State.raise, all.1, all.2]), accounts⟩
  | close =>
    match link, happened with
    | .connected c, rfl =>
      have all := requests c rfl
      unfold closeAt
      split <;> exact ⟨(by simp [State.raise, all]), (by simp [State.raise]), accounts⟩
    | .listening (some c), rfl =>
      have all := waiting c rfl
      unfold closeAt
      split <;> exact ⟨(by simp [State.raise]), (by simp [State.raise, all.1, all.2]), accounts⟩
  | change status =>
    cases happened
    refine ⟨requests, waiting, fun pid => ?_⟩
    have all := accounts pid
    simp only [State.raise, ofPid_append] at all ⊢
    rw [all, List.append_assoc]
  | raise signal =>
    cases happened
    exact ⟨requests, waiting, accounts⟩

private theorem accounted_serve {s s' : State} {answer : Server} (kept : Accounted s)
    (ran : serve s answer = .ok s') : Accounted s' := by
  obtain ⟨link, pending, statuses, changed, reaped, signals, phase⟩ := s
  cases phase with
  | test =>
    cases answer with
    | advance =>
      cases ran
      exact accounted_goto kept signals _ (by dsimp only; split <;> rfl)
    | _ => cases ran
  | suspended =>
    cases answer with
    | wake delivered =>
      simp only [serve] at ran
      split at ran
      case isTrue =>
        cases ran
        exact ⟨kept.requests, kept.waiting, kept.statuses⟩
      case isFalse => cases ran
    | _ => cases ran
  | checkChild =>
    cases answer with
    | advance =>
      cases ran
      exact accounted_goto kept signals _ (by dsimp only; split <;> rfl)
    | _ => cases ran
  | waitMain count =>
    cases count with
    | zero =>
      cases answer with
      | advance =>
        cases ran
        exact accounted_goto kept signals .checkIo rfl
      | _ => cases ran
    | succ count =>
      cases answer with
      | advance =>
        simp only [serve] at ran
        split at ran
        case isTrue =>
          cases ran
          exact accounted_goto kept _ .checkIo rfl
        case isFalse => cases ran
      | reap i => exact accounted_reap (accounted_goto kept signals (.statusHandler count) rfl) ran
      | _ => cases ran
  | statusHandler count =>
    cases answer with
    | reap i => exact accounted_reap kept ran
    | advance =>
      cases ran
      exact accounted_goto kept signals (.waitMain count) rfl
    | _ => cases ran
  | checkIo =>
    cases answer with
    | advance =>
      cases ran
      exact accounted_goto kept signals _ (by dsimp only; split <;> rfl)
    | _ => cases ran
  | handleIo site =>
    cases answer with
    | advance =>
      match link, ran with
      | .connected c, rfl => exact accounted_goto kept signals (.head site []) rfl
      | .listening (some c), rfl =>
        obtain ⟨received, handled⟩ := kept.waiting c rfl
        refine ⟨?_, (by simp), kept.statuses⟩
        rintro _ ⟨⟩
        rw [received, handled]
        rfl
      | .listening none, rfl => exact accounted_goto kept signals (.afterIo site) rfl
      | .down, rfl => exact accounted_goto kept signals (.afterIo site) rfl
    | _ => cases ran
  | answering site =>
    cases answer with
    | advance =>
      match link, ran with
      | .connected c, rfl =>
        have all := kept.requests c rfl
        refine ⟨?_, (by simp), kept.statuses⟩
        rintro _ ⟨⟩
        exact all
    | _ => cases ran
  | head site got =>
    match link, ran with
    | .connected c, ran =>
      simp only [serve] at ran
      refine accounted_read kept rfl (fun more => ?_) (fun nothing => ?_) ran
      · split <;> simp [inHand]
      · simpa [inHand] using nothing
  | payload site head got =>
    match link, ran with
    | .connected c, ran =>
      simp only [serve] at ran
      split at ran
      case isTrue complete =>
        cases answer with
        | advance =>
          cases ran
          have all := kept.requests c rfl
          refine ⟨?_, (by simp), kept.statuses⟩
          rintro _ ⟨⟩
          simp [all, inHand, Request.bytes]
        | _ => cases ran
      case isFalse =>
        exact accounted_read kept rfl (fun more => (List.append_assoc ..).symm) (by simp) ran
  | packetHandler site =>
    cases answer with
    | reap i => exact accounted_reap kept ran
    | quit =>
      cases ran
      exact accounted_goto kept _ (.packetHandler site) rfl
    | advance =>
      cases ran
      exact accounted_goto kept signals (.afterIo site) rfl
    | _ => cases ran
  | afterIo site =>
    cases answer with
    | advance =>
      cases site with
      | io =>
        cases ran
        exact accounted_goto kept _ .checkDisconnected rfl
      | disconnected =>
        cases ran
        exact accounted_goto kept signals .checkAlarm rfl
    | _ => cases site <;> cases ran
  | checkDisconnected =>
    cases answer with
    | advance =>
      cases ran
      exact accounted_goto kept signals _ (by dsimp only; split <;> rfl)
    | _ => cases ran
  | checkAlarm =>
    cases answer with
    | advance =>
      cases ran
      exact accounted_goto kept _ .test rfl
    | _ => cases ran
  | exited => cases answer <;> cases ran

theorem accounted_step {s s' : State} {event : Event} (kept : Accounted s)
    (stepped : step s event = .ok s') : Accounted s' := by
  cases event with
  | environment e => exact accounted_environment kept stepped
  | server answer => exact accounted_serve kept stepped

/-! ## Attention -/

/-- The loop of this round still gets to `comm_handle_io`. -/
def AboutToHandle (signals : Signals) : Phase → Prop
  | .checkChild => signals.io ≠ 0
  | .waitMain _ => signals.io ≠ 0
  | .statusHandler _ => signals.io ≠ 0
  | .checkIo => signals.io ≠ 0
  | .handleIo _ => True
  | _ => False

/-- It is in `comm_got_data`, or in `comm_answer`. -/
def Reading : Phase → Prop
  | .answering _ => True
  | .head _ _ => True
  | .payload _ _ _ => True
  | .packetHandler _ => True
  | _ => False

/-- It is in `wait_main`, or still gets there. -/
def AboutToWait (signals : Signals) : Phase → Prop
  | .checkChild => signals.child ≠ 0
  | .waitMain _ => True
  | .statusHandler _ => True
  | _ => False

/-- Work that is there has raised a signal, or the server is on its way to it. -/
structure Attentive (s : State) : Prop where
  data : ∀ c, s.link = .connected c → c.socket = [] ∨ s.pending .io = true ∨
      AboutToHandle s.signals s.phase ∨ Reading s.phase
  async : ∀ c, s.link = .connected c → c.async = true ∨ ∃ site, s.phase = .answering site
  client : ∀ c, s.link = .listening (some c) → s.pending .io = true ∨ AboutToHandle s.signals s.phase
  child : s.statuses = [] ∨ s.pending .child = true ∨ AboutToWait s.signals s.phase

/-- A step of the server on which no work is left behind: `wait_main` gives up only when
no status is left, and nothing is left in the socket after a request, or when the socket
becomes asynchronous; or else a signal has come again. -/
def Attended (s : State) : Event → Prop
  | .server .advance =>
    match s.phase with
    | .waitMain 0 => s.statuses = [] ∨ s.pending .child = true
    | .packetHandler _ => ∀ c, s.link = .connected c → c.socket = [] ∨ s.pending .io = true
    | .answering _ => ∀ c, s.link = .connected c → c.socket = [] ∨ s.pending .io = true
    | _ => True
  | _ => True

/-- The sockets stay, and no signal is forgotten. -/
private theorem attentive_goto {s : State} (kept : Attentive s) (signals : Signals) (phase : Phase)
    (handle : AboutToHandle s.signals s.phase → AboutToHandle signals phase)
    (reading : Reading s.phase → Reading phase)
    (async : ∀ site, s.phase = .answering site → phase = .answering site)
    (wait : AboutToWait s.signals s.phase → s.statuses = [] ∨ s.pending .child = true ∨
      AboutToWait signals phase) :
    Attentive { s with signals := signals, phase := phase } := by
  refine ⟨fun c connected => ?_, fun c connected => ?_, fun c waiting => ?_, ?_⟩
  · exact (kept.data c connected).imp_right (Or.imp_right (Or.imp handle reading))
  · exact (kept.async c connected).imp_right fun ⟨site, here⟩ => ⟨site, async site here⟩
  · exact (kept.client c waiting).imp_right handle
  · rcases kept.child with nothing | raised | soon
    · exact .inl nothing
    · exact .inr (.inl raised)
    · exact wait soon

private theorem attentive_reap {s s' : State} {i : Nat} (kept : Attentive s)
    (reaped : s.reap i = .ok s') : Attentive s' := by
  obtain ⟨statuses, list, rfl, nothing, _⟩ := reap_cases reaped
  exact ⟨kept.data, kept.async, kept.client, kept.child.imp_left nothing⟩

private theorem raise_self (s : State) (signal : Signal) : (s.raise signal).pending signal = true :=
  by simp [State.raise]

private theorem raise_keeps {s : State} {x : Signal} (signal : Signal)
    (raised : s.pending x = true) : (s.raise signal).pending x = true := by
  simp [State.raise, raised]

private theorem attentive_raise {s : State} (kept : Attentive s) (signal : Signal) :
    Attentive (s.raise signal) :=
  ⟨fun c connected => (kept.data c connected).imp_right (Or.imp_left (raise_keeps signal)), kept.async,
    fun c waiting => (kept.client c waiting).imp_left (raise_keeps signal),
    kept.child.imp_right (Or.imp_left (raise_keeps signal))⟩

/-- A socket that is not asynchronous yet is in `comm_answer`. -/
private theorem attentive_data {s : State} {c : Connection} (kept : Attentive s)
    (connected : s.link = .connected c) (later : Connection)
    (same : later.async = c.async) :
    Attentive (if c.async then ({ s with link := .connected later } : State).raise .io
      else { s with link := .connected later }) := by
  have async := kept.async c connected
  by_cases signals : c.async = true
  · rw [if_pos signals]
    refine ⟨fun _ _ => .inr (.inl (raise_self _ _)), ?_, (by simp [State.raise]),
      kept.child.imp_right (Or.imp_left (raise_keeps (s := s) .io))⟩
    rintro _ ⟨⟩
    exact .inl (same.trans signals)
  · rw [if_neg signals]
    obtain ⟨site, here⟩ := async.resolve_left signals
    exact ⟨fun _ _ => .inr (.inr (.inr (by rw [here]; trivial))), fun _ _ => .inr ⟨site, here⟩,
      (by simp), kept.child⟩

/-- The data of a client that waits raise no signal, but its connection has. -/
private theorem attentive_client {s : State} {c : Connection} (kept : Attentive s)
    (waiting : s.link = .listening (some c)) (later : Connection) :
    Attentive (if c.async then ({ s with link := .listening (some later) } : State).raise .io
      else { s with link := .listening (some later) }) := by
  have moved : Attentive { s with link := .listening (some later) } :=
    ⟨(by simp), (by simp), fun _ _ => kept.client c waiting, kept.child⟩
  split
  · exact attentive_raise moved .io
  · exact moved

private theorem attentive_environment {s s' : State} {e : Environment} (kept : Attentive s)
    (happened : environment s e = .ok s') :
    Attentive s' := by
  cases e with
  | connect =>
    simp only [environment] at happened
    split at happened
    · cases happened
      exact ⟨(by simp [State.raise]), (by simp [State.raise]), fun _ _ => .inl (raise_self _ _),
        kept.child.imp_right (Or.imp_left (raise_keeps (s := s) .io))⟩
    · cases happened
  | arrive bytes =>
    simp only [environment] at happened
    split at happened
    · next c connected =>
      simp only [arriveAt] at happened
      split at happened
      · cases happened
      · cases happened
        exact attentive_data kept connected _ rfl
    · next c waiting =>
      simp only [arriveAt] at happened
      split at happened
      · cases happened
      · cases happened
        exact attentive_client kept waiting _
    · cases happened
  | close =>
    simp only [environment] at happened
    split at happened
    · next c connected =>
      cases happened
      exact attentive_data kept connected _ rfl
    · next c waiting =>
      cases happened
      exact attentive_client kept waiting _
    · cases happened
  | change status =>
    cases happened
    have changed : Attentive (s.raise .child) := attentive_raise kept .child
    exact ⟨changed.data, changed.async, changed.client, .inr (.inl (raise_self _ _))⟩
  | raise signal =>
    cases happened
    exact attentive_raise kept signal

/-- The handler only counts up. -/
private theorem handler_counts (signals : Signals) (signal : Signal) :
    signals.io ≤ (signalHandler signals signal).io ∧
    signals.child ≤ (signalHandler signals signal).child := by
  cases signal <;> simp [signalHandler]

private theorem delivered_counts (signals : Signals) (delivered : List Signal) :
    signals.io ≤ (delivered.foldl signalHandler signals).io ∧
    signals.child ≤ (delivered.foldl signalHandler signals).child := by
  induction delivered generalizing signals with
  | nil => exact ⟨Nat.le_refl _, Nat.le_refl _⟩
  | cons signal rest ih =>
    have first := handler_counts signals signal
    have later := ih (signalHandler signals signal)
    exact ⟨Nat.le_trans first.1 later.1, Nat.le_trans first.2 later.2⟩

/-- A delivered signal has been counted. -/
private theorem delivered_io (signals : Signals) {delivered : List Signal} (member : .io ∈ delivered) :
    (delivered.foldl signalHandler signals).io ≠ 0 := by
  obtain ⟨before, after, rfl⟩ := List.append_of_mem member
  rw [List.foldl_append, List.foldl_cons]
  have rest := (delivered_counts (signalHandler (before.foldl signalHandler signals) .io) after).1
  simp only [signalHandler] at rest ⊢
  omega

private theorem delivered_child (signals : Signals) {delivered : List Signal}
    (member : .child ∈ delivered) :
    (delivered.foldl signalHandler signals).child ≠ 0 := by
  obtain ⟨before, after, rfl⟩ := List.append_of_mem member
  rw [List.foldl_append, List.foldl_cons]
  have rest := (delivered_counts (signalHandler (before.foldl signalHandler signals) .child) after).2
  simp only [signalHandler] at rest ⊢
  omega

/-- A signal that was pending is pending still, or has been delivered. -/
private theorem pending_or_delivered {pending : Signal → Bool} {signal : Signal}
    (delivered : List Signal) (raised : pending signal = true) :
    (pending signal && !decide (signal ∈ delivered)) = true ∨ signal ∈ delivered := by
  by_cases member : signal ∈ delivered
  · exact .inr member
  · exact .inl (by simp [raised, member])

private theorem attentive_wake {s : State} (kept : Attentive s) (suspended : s.phase = .suspended)
    (delivered : List Signal) :
    Attentive { s with
      pending := fun x => s.pending x && x ∉ delivered
      signals := delivered.foldl signalHandler s.signals
      phase := .checkChild } := by
  have notHandling : ¬ AboutToHandle s.signals s.phase := by simp [suspended, AboutToHandle]
  have notReading : ¬ Reading s.phase := by simp [suspended, Reading]
  have notWaiting : ¬ AboutToWait s.signals s.phase := by simp [suspended, AboutToWait]
  refine ⟨fun c connected => ?_, fun c connected => ?_, fun c waiting => ?_, ?_⟩
  · rcases kept.data c connected with empty | raised | handling | reading
    · exact .inl empty
    · refine .inr ((pending_or_delivered delivered raised).imp (by simp) fun member =>
        .inl (delivered_io _ member))
    · exact absurd handling notHandling
    · exact absurd reading notReading
  · exact .inl ((kept.async c connected).resolve_right (by simp [suspended]))
  · rcases kept.client c waiting with raised | handling
    · exact (pending_or_delivered delivered raised).imp (by simp) fun member => delivered_io _ member
    · exact absurd handling notHandling
  · rcases kept.child with nothing | raised | soon
    · exact .inl nothing
    · exact .inr ((pending_or_delivered delivered raised).imp (by simp) fun member =>
        delivered_child _ member)
    · exact absurd soon notWaiting

private theorem attentive_read {s s' : State} {c : Connection} {site : Site} {count : Nat}
    {got : Bytes} {wait : Bool} {next : Bytes → Phase}
    {answer : Server} (kept : Attentive s) (connected : s.link = .connected c)
    (notAnswering : ∀ site, s.phase ≠ .answering site)
    (notWaiting : ¬ AboutToWait s.signals s.phase) (reading : ∀ got, Reading (next got))
    (ran : commReadRaw s c site count got wait next answer = .ok s') : Attentive s' := by
  have async : c.async = true :=
    (kept.async c connected).resolve_right fun ⟨site, here⟩ => notAnswering site here
  have child : s.statuses = [] ∨ s.pending .child = true := by
    rcases kept.child with nothing | raised | soon
    · exact .inl nothing
    · exact .inr raised
    · exact absurd soon notWaiting
  have childLater (signals : Signals) (phase : Phase) : s.statuses = [] ∨ s.pending .child = true ∨
      AboutToWait signals phase :=
    child.imp_right .inl
  cases answer with
  | read n =>
    simp only [commReadRaw] at ran
    split at ran
    case isTrue possible =>
      cases ran
      refine ⟨fun _ _ => .inr (.inr (.inr (reading _))), ?_, (by simp), childLater _ _⟩
      rintro _ ⟨⟩
      exact .inl async
    case isFalse => cases ran
  | wouldBlock =>
    simp only [commReadRaw] at ran
    split at ran
    case isTrue possible =>
      split at ran
      · cases ran
        exact kept
      · cases ran
        refine ⟨fun c' connected' => .inl ?_, fun c' connected' => .inl ?_, fun c' waiting => ?_,
          childLater _ _⟩
        · obtain rfl := Link.connected.inj (connected.symm.trans connected')
          exact possible.1
        · obtain rfl := Link.connected.inj (connected.symm.trans connected')
          exact async
        · cases connected.symm.trans waiting
    case isFalse => cases ran
  | endOfStream listens =>
    simp only [commReadRaw] at ran
    split at ran
    case isTrue possible =>
      cases ran
      cases listens <;> exact ⟨(by simp [disconnect]), (by simp [disconnect]),
        (by simp [disconnect]), childLater _ _⟩
    case isFalse => cases ran
  | _ => cases ran

/-- The loop goes on to what is neither reading nor waiting. -/
private theorem attentive_leave {s : State} (kept : Attentive s) (signals : Signals) (phase : Phase)
    (handle : AboutToHandle s.signals s.phase → AboutToHandle signals phase)
    (read : Reading s.phase → ∀ c, s.link = .connected c → c.socket = [] ∨ s.pending .io = true)
    (async : ∀ site, s.phase ≠ .answering site)
    (wait : AboutToWait s.signals s.phase → s.statuses = [] ∨ s.pending .child = true) :
    Attentive { s with signals := signals, phase := phase } := by
  refine ⟨fun c connected => ?_, fun c connected => ?_, fun c waiting => ?_, ?_⟩
  · rcases kept.data c connected with empty | raised | handling | reading
    · exact .inl empty
    · exact .inr (.inl raised)
    · exact .inr (.inr (.inl (handle handling)))
    · exact (read reading c connected).imp_right .inl
  · exact .inl ((kept.async c connected).resolve_right fun ⟨site, here⟩ => async site here)
  · exact (kept.client c waiting).imp_right handle
  · rcases kept.child with nothing | raised | soon
    · exact .inl nothing
    · exact .inr (.inl raised)
    · exact (wait soon).imp_right .inl

private theorem attentive_serve {s s' : State} {answer : Server} (kept : Attentive s)
    (attended : Attended s (.server answer))
    (ran : serve s answer = .ok s') : Attentive s' := by
  obtain ⟨link, pending, statuses, changed, reaped, signals, phase⟩ := s
  cases phase with
  | test =>
    cases answer with
    | advance =>
      cases ran
      exact attentive_leave kept signals _ False.elim False.elim (by simp) False.elim
    | _ => cases ran
  | suspended =>
    cases answer with
    | wake delivered =>
      simp only [serve] at ran
      split at ran
      case isTrue =>
        cases ran
        exact attentive_wake kept rfl delivered
      case isFalse => cases ran
    | _ => cases ran
  | checkChild =>
    cases answer with
    | advance =>
      cases ran
      by_cases child : signals.child = 0
      · have next : (if signals.child ≠ 0 then Phase.waitMain 128 else .checkIo) = .checkIo :=
          if_neg (not_not.mpr child)
        dsimp only
        rw [next]
        exact attentive_leave kept signals .checkIo id False.elim (by simp) fun soon => absurd child soon
      · have next : (if signals.child ≠ 0 then Phase.waitMain 128 else .checkIo) = .waitMain 128 :=
          if_pos child
        dsimp only
        rw [next]
        exact attentive_goto kept signals (.waitMain 128) id False.elim (by simp) fun _ =>
          .inr (.inr trivial)
    | _ => cases ran
  | waitMain count =>
    cases count with
    | zero =>
      cases answer with
      | advance =>
        cases ran
        exact attentive_leave kept signals .checkIo id False.elim (by simp) fun _ => attended
      | _ => cases ran
    | succ count =>
      cases answer with
      | advance =>
        simp only [serve] at ran
        split at ran
        case isTrue nothing =>
          cases ran
          exact attentive_leave kept _ .checkIo id False.elim (by simp) fun _ => .inl nothing
        case isFalse => cases ran
      | reap i =>
        exact attentive_reap (attentive_goto kept signals (.statusHandler count) id False.elim
          (by simp) fun _ => .inr (.inr trivial)) ran
      | _ => cases ran
  | statusHandler count =>
    cases answer with
    | reap i => exact attentive_reap kept ran
    | advance =>
      cases ran
      exact attentive_goto kept signals (.waitMain count) id False.elim (by simp) fun _ =>
        .inr (.inr trivial)
    | _ => cases ran
  | checkIo =>
    cases answer with
    | advance =>
      cases ran
      by_cases io : signals.io = 0
      · exact attentive_leave kept signals _ (fun due => absurd io due) False.elim (by simp) False.elim
      · have next : (if signals.io ≠ 0 then Phase.handleIo .io else .checkDisconnected) =
            .handleIo .io := if_pos io
        dsimp only
        rw [next]
        exact attentive_goto kept signals (.handleIo .io) (fun _ => trivial) False.elim
          (by simp) False.elim
    | _ => cases ran
  | handleIo site =>
    cases answer with
    | advance =>
      match link, ran with
      | .connected c, rfl =>
        exact ⟨fun _ _ => .inr (.inr (.inr trivial)),
          fun c connected => .inl ((kept.async c connected).resolve_right (by simp)),
          (by simp [State.goto]), kept.child⟩
      | .listening (some c), rfl =>
        exact ⟨fun _ _ => .inr (.inr (.inr trivial)), fun _ _ => .inr ⟨site, rfl⟩, (by simp), kept.child⟩
      | .listening none, rfl =>
        exact ⟨(by simp [State.goto]), (by simp [State.goto]), (by simp [State.goto]), kept.child⟩
      | .down, rfl =>
        exact ⟨(by simp [State.goto]), (by simp [State.goto]), (by simp [State.goto]), kept.child⟩
    | _ => cases ran
  | answering site =>
    cases answer with
    | advance =>
      match link, ran with
      | .connected c, rfl =>
        refine ⟨?_, ?_, (by simp), kept.child⟩
        · rintro _ ⟨⟩
          exact (attended c rfl).imp_right .inl
        · rintro _ ⟨⟩
          exact .inl rfl
    | _ => cases ran
  | head site got =>
    match link, ran with
    | .connected c, ran =>
      simp only [serve] at ran
      refine attentive_read kept rfl (by simp) id (fun got => ?_) ran
      split <;> trivial
  | payload site head got =>
    match link, ran with
    | .connected c, ran =>
      simp only [serve] at ran
      split at ran
      case isTrue complete =>
        cases answer with
        | advance =>
          cases ran
          refine ⟨fun _ _ => .inr (.inr (.inr trivial)), ?_, (by simp), kept.child⟩
          rintro _ ⟨⟩
          exact .inl ((kept.async c rfl).resolve_right (by simp))
        | _ => cases ran
      case isFalse =>
        refine attentive_read kept rfl (by simp) id (fun got => ?_) ran
        trivial
  | packetHandler site =>
    cases answer with
    | reap i => exact attentive_reap kept ran
    | quit =>
      cases ran
      exact attentive_goto kept _ (.packetHandler site) False.elim id (by simp) False.elim
    | advance =>
      cases ran
      exact attentive_leave kept signals (.afterIo site) False.elim (fun _ => attended)
        (by simp) False.elim
    | _ => cases ran
  | afterIo site =>
    cases answer with
    | advance =>
      cases site with
      | io =>
        cases ran
        exact attentive_leave kept _ .checkDisconnected False.elim False.elim (by simp) False.elim
      | disconnected =>
        cases ran
        exact attentive_leave kept signals .checkAlarm False.elim False.elim (by simp) False.elim
    | _ => cases site <;> cases ran
  | checkDisconnected =>
    cases answer with
    | advance =>
      cases ran
      exact attentive_leave kept signals _ False.elim False.elim (by simp) False.elim
    | _ => cases ran
  | checkAlarm =>
    cases answer with
    | advance =>
      cases ran
      exact attentive_leave kept _ .test False.elim False.elim (by simp) False.elim
    | _ => cases ran
  | exited => cases answer <;> cases ran

theorem attentive_step {s s' : State} {event : Event} (kept : Attentive s)
    (attended : Attended s event) (stepped : step s event = .ok s') :
    Attentive s' := by
  cases event with
  | environment e => exact attentive_environment kept stepped
  | server answer => exact attentive_serve kept attended stepped

/-! ## Runs -/

theorem accounted_initial : Accounted initial := ⟨(by simp [initial]), (by simp [initial]), fun _ => rfl⟩

theorem attentive_initial : Attentive initial :=
  ⟨(by simp [initial]), (by simp [initial]), (by simp [initial]), .inl rfl⟩

private theorem complete_nonempty {bytes : Bytes} (complete : Complete bytes) : bytes ≠ [] := by
  obtain ⟨request, rest, rfl⟩ := complete
  have head := request.whole
  intro empty
  simp [Request.bytes, headerSize] at empty head
  simp [empty.1] at head

/-- Who waits attentively has done everything. -/
theorem orderly_of_attentive {s : State} (accounted : Accounted s) (attentive : Attentive s) :
    Orderly s := by
  refine ⟨accounted, fun quiet c link => ?_, fun quiet => ?_⟩
  · obtain ⟨suspended, silent⟩ := quiet
    intro complete
    rcases link with connected | waiting
    · rcases attentive.data c connected with empty | raised | handling | reading
      · exact complete_nonempty complete empty
      · simp [silent] at raised
      · simp [suspended, AboutToHandle] at handling
      · simp [suspended, Reading] at reading
    · rcases attentive.client c waiting with raised | handling
      · simp [silent] at raised
      · simp [suspended, AboutToHandle] at handling
  · obtain ⟨suspended, silent⟩ := quiet
    rcases attentive.child with nothing | raised | soon
    · exact nothing
    · simp [silent] at raised
    · simp [suspended, AboutToWait] at soon

/-- In a run that leaves no work behind, the server handles every request and every status
once and in order, and it never waits for a signal while there is one to be handled. -/
theorem main_loop_orderly {events : List Event} {final : State}
    (attended : Guarded step Attended initial events)
    (ran : runAll step initial events = .ok final) : Orderly final := by
  have kept : ∀ s event s', Accounted s ∧ Attentive s → Attended s event → step s event = .ok s' →
      Accounted s' ∧ Attentive s' :=
    fun _ _ _ good admitted stepped =>
    ⟨accounted_step good.1 stepped, attentive_step good.2 admitted stepped⟩
  have both := guarded_keeps kept ⟨accounted_initial, attentive_initial⟩ attended ran
  exact orderly_of_attentive both.1 both.2

/-- The server advances so many times. -/
def advances (n : Nat) : List Event := List.replicate n (.server .advance)

/-- `PING` without arguments. -/
def ping : Request := ⟨[0x47, 0x4e, 0x49, 0x50, 0, 0, 0, 0, 9, 0, 0, 0],
      [0, 0, 1, 0, 0, 0, 0, 0, 0], rfl, rfl⟩

/-- A client connects and sends a request, and when it is handled a tracee stops. -/
def requestThenStop : List Event :=
  [.environment .connect, .server .advance, .server (.wake [.io])] ++ advances 8 ++
    [.environment (.arrive ping.bytes), .server (.wake [.io])] ++ advances 3 ++
    [.server (.read 12), .server (.read 9)] ++ advances 6 ++
    [.environment (.change ⟨1, 0x137f#32⟩), .server (.wake [.child]), .server .advance,
      .server (.reap 0)] ++ advances 6

/-- The server handles both and waits again. -/
theorem request_and_stop_handled : ∃ final c, runAll step initial requestThenStop = .ok final ∧
    Quiet final ∧
    final.link = .connected c ∧ c.handled = [ping] ∧ final.reaped = [⟨1, 0x137f#32⟩] ∧
    Orderly final := by
  -- the only steps that could leave work behind are those after the request, when the socket is empty
  have attended : Guarded step Attended initial requestThenStop := by
    iterate 34
      refine ⟨by first | trivial | exact .inl rfl | (rintro _ ⟨⟩; exact .inl rfl), ?_⟩
      rintro _ ⟨⟩
    trivial
  exact ⟨_, _, rfl, ⟨rfl, fun signal => by cases signal <;> rfl⟩, rfl, rfl, rfl,
    main_loop_orderly attended rfl⟩

/-- Two requests arrive at once. -/
def twoRequests : List Event :=
  [.environment .connect, .server .advance, .server (.wake [.io])] ++ advances 8 ++
    [.environment (.arrive (ping.bytes ++ ping.bytes)), .server (.wake [.io])] ++ advances 3 ++
    [.server (.read 12), .server (.read 9)] ++ advances 6

/-- The server handles the first one and waits, while the second one is in the socket. -/
theorem second_request_lost : ∃ final, runAll step initial twoRequests = .ok final ∧
    ¬ Orderly final := by
  refine ⟨_, rfl, fun orderly => ?_⟩
  exact orderly.requestsDone ⟨rfl, fun signal => by cases signal <;> rfl⟩ _ (.inl rfl) ⟨ping, [], rfl⟩

end Adbi.MainLoopProofs
