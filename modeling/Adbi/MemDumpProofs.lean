import Adbi.MemDump
import Adbi.SpawnProofs
import Adbi.PayloadPutProofs

/-! Memory dumps. No process counts as running, so that none is stopped for a
dump; and the reference to the stopped thread that is read through is kept. -/
namespace Adbi.MemDumpProofs
open Adbi.Lib Adbi.Payload Adbi.Protocol Adbi.MemDump

variable {kernel : Kernel} {others : Operations World} {request : Request} {s : Server World} {w : World}
  {pid size : Word} {address : BitVec 64} {target : Target} {memory : BitVec 64 → Option (BitVec 8)}

/-- A field of the request, if it has it. -/
def fieldU32 (request : Request) (name : String) : Option Word :=
  match (payloadGet .u32 request.payload (text name) (request.length.toNat + 1)).value with
  | some (some place) => some (loadU32 request.payload place).value
  | _ => none

def fieldU64 (request : Request) (name : String) : Option (BitVec 64) :=
  match (payloadGet .u64 request.payload (text name) (request.length.toNat + 1)).value with
  | some (some place) =>
    some ((loadU32 request.payload (place + 4#32)).value ++ (loadU32 request.payload place).value)
  | _ => none

/-- The request has the fields of a memory dump. -/
structure Asks (request : Request) (pid : Word) (address : BitVec 64) (size : Word) : Prop where
  pid : fieldU32 request "pid" = some pid
  address : fieldU64 request "address" = some address
  size : fieldU32 request "size" = some size

/-- The word at an address of the inferior, if all of it can be read. -/
def inferiorWord (memory : BitVec 64 → Option (BitVec 8)) (address : BitVec 64) : Option Word := do
  let b0 ← memory address
  let b1 ← memory (address + 1)
  let b2 ← memory (address + 2)
  let b3 ← memory (address + 3)
  pure (b3 ++ b2 ++ b1 ++ b0)

/-- The whole words that can be read from an address on, so many at most. -/
def readableWords (memory : BitVec 64 → Option (BitVec 8)) : Nat → BitVec 64 → List Word
  | 0, _ => []
  | count + 1, address =>
    match inferiorWord memory address with
    | none => []
    | some word => word :: readableWords memory count (address + 4)

/-- The number of whole words that are asked for. -/
def asked (size : Word) : Nat := min size.toNat 10240 / 4

def wordElement (i : Nat) (word : Word) : Element :=
  payloadPutU32 (text "word" ++ text "[" ++ decimal i ++ text "]") word

/-- The fields of the answer. -/
def dump (words : List Word) (address : BitVec 64) : List Element :=
  words.mapIdx wordElement ++ [payloadPutU64 (text "address") address,
    payloadPutU32 (text "size") (BitVec.ofNat 32 words.length),
    payloadPutStr (text "msg") (some
      ((text "Dumped " ++ decimal words.length ++ text " bytes.").take 255)), payloadPutTerm]

/-- The references to a process and to its threads, and which of these run. -/
def ledger (w : World) (pid : Word) : Option (Nat × List (Word × Bool × Nat)) :=
  (w pid).map fun t => (t.references, t.threads.map fun e => (e.tid, e.running, e.references))

/-- The handler answers with the words that can be read, and leaves the threads and all references
as they were. -/
def Right (kernel : Kernel) (others : Operations World) (request : Request) (s : Server World)
    (address : BitVec 64)
    (size : Word) : Prop :=
  ∃ response after, handleMEMD (operations kernel others) request s = .error (.answer response) after ∧
    response = ⟨packetId "OKAY", request.seq,
      payloadBytes (s.buffer ++ dump (readableWords kernel.memory (asked size) address) address)⟩ ∧
    ∀ pid, ledger after.rest pid = ledger s.rest pid

/-! ## What the handler finds -/

/-- The conjunction starts with false. -/
theorem processIsRunning_false (threads : List Thread) : processIsRunning threads = false := by
  rw [processIsRunning]
  induction threads with
  | nil => rfl
  | cons thread rest ih => rw [List.foldl_cons, Bool.false_and, ih]

theorem threadAnyStopped_some {threads : List Thread} {thread : Thread}
    (any : threadAnyStopped threads = some thread) :
    thread ∈ threads ∧ thread.running = false ∧ thread.dead = false := by
  have found := List.find?_some any
  simp only [Bool.and_eq_true, Bool.not_eq_true'] at found
  exact ⟨List.mem_of_find?_eq_some any, found.1, found.2⟩

/-! ## What the answer leaves alone -/

variable {P : World → Prop}

theorem keeps_put (element : Element) : Keeps (fun s : Server World => P s.rest) (put element) := by
  refine keeps_get_bind fun s holds => ?_
  by_cases large : 2 ^ 31 < (payloadBytes (s.buffer ++ [element])).length
  · simp only [if_pos large]
    exact holds
  · simp only [if_neg large]
    exact holds

theorem keeps_indexed (base : String) (i : Nat) : Keeps (fun s : Server World => P s.rest)
    (indexed base i) := by
  rw [indexed]
  split
  · exact keeps_pure _
  · exact keeps_throw _

theorem keeps_respond (type : String) : Keeps (fun s : Server World => P s.rest)
    (respond request type) := by
  refine keeps_bind (keeps_put _) fun _ => keeps_get_bind fun s holds => ?_
  by_cases checked : (payloadCheck (fun address => (payloadBytes s.buffer).getD address.toNat 0)
      ((payloadBytes s.buffer).length + 1) (BitVec.ofNat 32 (payloadBytes s.buffer).length)).value =
        some true
  · simp only [if_pos checked]
    exact holds
  · simp only [if_neg checked]
    exact holds

theorem keeps_say (type : String) (message : CString) :
    Keeps (fun s : Server World => P s.rest) (say request type message) :=
  keeps_bind (keeps_put _) fun _ => keeps_respond _

theorem keeps_report {α : Type} {entry : Nat → α → Handler World Unit} {entries : List α}
    (each : ∀ i a, Keeps (fun s : Server World => P s.rest) (entry i a)) :
    Keeps (fun s : Server World => P s.rest) (report entry entries) :=
  keeps_forM fun numbered _ => each numbered.2 numbered.1

theorem keeps_returns {ops : Operations World} : Keeps (fun s : Server World => P s.rest)
    (returns ops) := by
  refine keeps_get_bind fun s holds => ?_
  split
  · exact holds
  · exact holds

theorem readU32_field {name : String} {value : Word} (here : fieldU32 request name = some value)
    (s : Server World) :
    readU32 request name s = .ok value s := by
  simp only [fieldU32] at here
  split at here <;> rename_i found
  · obtain rfl := Option.some.inj here
    simp only [readU32, readPtr, found]
    rfl
  · cases here

theorem readU64_field {name : String} {value : BitVec 64}
    (here : fieldU64 request name = some value) (s : Server World) :
    readU64 request name s = .ok value s := by
  simp only [fieldU64] at here
  split at here <;> rename_i found
  · obtain rfl := Option.some.inj here
    simp only [readU64, readPtr, found]
    rfl
  · cases here

/-! ## The run -/

/-- The number of bytes that is passed to `mem_read`. -/
def limit (size : Word) : Word := BitVec.ofNat 32 (min (size.toNat / 4 * 4) 10240)

/-- What the handler does with the bytes that were read. -/
def answerDump (ops : Operations World) (request : Request) (pid : Word) (address : BitVec 64)
    (data : List (BitVec 8)) : Handler World Unit := do
  let words := data.length / 4
  report (fun i _ => do put (payloadPutU32 (← indexed "word" i) (wordAt data i)))
    (List.replicate words ())
  put (payloadPutU64 (text "address") address)
  put (payloadPutU32 (text "size") (BitVec.ofNat 32 words))
  change ops (processPut pid)
  okay request (text "Dumped " ++ decimal words ++ text " bytes.")

/-- The registry with the references to the process and to the thread that is read through. -/
def held (pid tid : Word) (w : World) : World :=
  threadDup tid (changeTarget pid (fun t => { t with references := t.references + 1 }) w)

private theorem threads_held (attached : s.rest pid = some target) :
    threads pid (changeTarget pid (fun t => { t with references := t.references + 1 }) s.rest) =
      threads pid s.rest := by
  simp [threads, changeTarget, attached]

/-- Without a thread that is stopped and alive the assertion of `mem_read` fails. -/
theorem handleMEMD_none (kernel : Kernel) (others : Operations World)
    (asks : Asks request pid address size) (attached : s.rest pid = some target)
    (idle : threadAnyStopped (threads pid s.rest) = none) :
    ∃ after, handleMEMD (operations kernel others) request s = .error .broken after := by
  simp only [handleMEMD, run_bind, readU32_field asks.pid, readU64_field asks.address,
    readU32_field asks.size,
    withProcess, operations, processGet, attached, Option.map_some, run_get, run_modify,
    processIsRunning_false,
    Bool.false_eq_true, if_false, threads_held attached, idle]
  exact ⟨_, rfl⟩

/-- With one, its memory is read, and nothing is stopped or continued. -/
theorem handleMEMD_some (asks : Asks request pid address size) (attached : s.rest pid = some target)
    {thread : Thread}
    (any : threadAnyStopped (threads pid s.rest) = some thread) :
    handleMEMD (operations kernel others) request s =
      let read := memRead kernel thread.tid address (limit size) (held pid thread.tid s.rest)
      answerDump (operations kernel others) request pid address read.1 { s with rest := read.2 } := by
  simp only [handleMEMD, run_bind, readU32_field asks.pid, readU64_field asks.address,
    readU32_field asks.size,
    withProcess, operations, processGet, attached, Option.map_some, run_get, run_modify,
    processIsRunning_false,
    Bool.false_eq_true, if_false, threads_held attached, any]
  rfl

/-! ## The answer -/

/-- Less than a word is read where no whole word can be. -/
theorem readable_none (missing : inferiorWord memory address = none) (count : Nat) :
    (readable memory (count + 4) address).length < 4 := by
  have second : address + 1 + 1 = address + 2 := by bv_omega
  have third : address + 2 + 1 = address + 3 := by bv_omega
  simp only [readable, second, third]
  cases first : memory address with
  | none => simp
  | some b0 =>
    cases next : memory (address + 1) with
    | none => simp
    | some b1 =>
      cases later : memory (address + 2) with
      | none => simp
      | some b2 =>
        cases last : memory (address + 3) with
        | none => simp
        | some b3 =>
          simp only [inferiorWord, first, next, later, last] at missing
          cases missing

theorem readable_some {word : Word} (here : inferiorWord memory address = some word) (count : Nat) :
    ∃ b0 b1 b2 b3, word = b3 ++ b2 ++ b1 ++ b0 ∧
      readable memory (count + 4) address =
        b0 :: b1 :: b2 :: b3 :: readable memory count (address + 4) := by
  have second : address + 1 + 1 = address + 2 := by bv_omega
  have third : address + 2 + 1 = address + 3 := by bv_omega
  have next : address + 3 + 1 = address + 4 := by bv_omega
  simp only [inferiorWord, Option.bind_eq_bind, Option.bind_eq_some_iff, Option.pure_def,
    Option.some.injEq] at here
  obtain ⟨b0, h0, b1, h1, b2, h2, b3, h3, rfl⟩ := here
  exact ⟨b0, b1, b2, b3, rfl, by simp only [readable, second, third, next, h0, h1, h2, h3]⟩

/-- The bytes that are read make up exactly the words that can be read. -/
theorem words_of_readable (count : Nat) (address : BitVec 64) :
    (List.range ((readable memory (4 * count) address).length / 4)).map
      (wordAt (readable memory (4 * count) address)) =
      readableWords memory count address := by
  induction count generalizing address with
  | zero => simp [readable, readableWords]
  | succ count ih =>
    rw [show 4 * (count + 1) = 4 * count + 4 by omega, readableWords]
    cases here : inferiorWord memory address with
    | none =>
      have short := readable_none here (4 * count)
      rw [Nat.div_eq_of_lt short]
      rfl
    | some word =>
      obtain ⟨b0, b1, b2, b3, rfl, read⟩ := readable_some here (4 * count)
      have length : (readable memory (4 * count + 4) address).length / 4 =
          (readable memory (4 * count) (address + 4)).length / 4 + 1 := by
        rw [read]
        simp only [List.length_cons]
        omega
      have shifted : wordAt (readable memory (4 * count + 4) address) ∘ Nat.succ =
          wordAt (readable memory (4 * count) (address + 4)) := by
        funext i
        simp only [read, wordAt, Function.comp_apply, show 4 * i.succ = 4 * i + 1 + 1 + 1 + 1 by omega,
          show 4 * i + 1 + 1 + 1 + 1 + 3 = 4 * i + 3 + 1 + 1 + 1 + 1 by omega,
          show 4 * i + 1 + 1 + 1 + 1 + 2 = 4 * i + 2 + 1 + 1 + 1 + 1 by omega, List.getD_cons_succ]
      rw [length, List.range_succ_eq_map, List.map_cons, List.map_map, shifted, ih, read]
      rfl

theorem limit_eq (size : Word) : (limit size).toNat = 4 * asked size := by
  have bound := size.isLt
  rw [limit, asked, BitVec.toNat_ofNat]
  omega

theorem run_put {element : Element} (room : (payloadBytes (s.buffer ++ [element])).length ≤ 2 ^ 31) :
    put element s = .ok () { s with buffer := s.buffer ++ [element] } := by
  simp only [put, run_bind, run_get, if_neg (Nat.not_lt.mpr room)]
  rfl

/-- An element with a short name and little data. -/
structure Small (element : Element) : Prop where
  name : element.name.length ≤ 16
  data : element.data.length ≤ 256

theorem length_payloadBytes_le {elements : List Element} (small : ∀ e ∈ elements, Small e) :
    (payloadBytes elements).length ≤ 281 * elements.length := by
  induction elements with
  | nil => simp [payloadBytes]
  | cons element rest ih =>
    have here := small element List.mem_cons_self
    have later := ih fun e member => small e (List.mem_cons_of_mem _ member)
    have bound : (payloadAddElement element).length ≤ 281 := by
      have name := here.name
      have data := here.data
      simp only [payloadAddElement, List.length_append, List.length_cons, List.length_nil,
        length_littleEndian,
        List.length_take]
      omega
    rw [PayloadPutProofs.payloadBytes_cons, List.length_append, List.length_cons]
    omega

/-- Adding a few elements to a buffer that holds only a few. -/
theorem run_put_small {element : Element} (small : ∀ e ∈ s.buffer ++ [element], Small e)
    (few : s.buffer.length ≤ 2600) :
    put element s = .ok () { s with buffer := s.buffer ++ [element] } := by
  refine run_put ?_
  have length := length_payloadBytes_le small
  rw [List.length_append, List.length_singleton] at length
  omega

theorem wordElement_small {i : Nat} (short : i < 10 ^ 9) (word : Word) : Small (wordElement i word) := by
  have name := (SpawnProofs.decimal_length i 8).mpr short
  constructor
  · have base : (text "word").length = 4 := by rfl
    have bracket : (text "[").length = 1 := by rfl
    have closing : (text "]").length = 1 := by rfl
    simp only [wordElement, payloadPutU32, List.length_append, base, bracket, closing]
    omega
  · simp [wordElement, payloadPutU32]

theorem run_indexed {i : Nat} (short : i < 10 ^ 9) (s : Server World) :
    indexed "word" i s = .ok (text "word" ++ text "[" ++ decimal i ++ text "]") s := by
  have name := (SpawnProofs.decimal_length i 8).mpr short
  have base : (text "word").length = 4 := by rfl
  have bracket : (text "[").length = 1 := by rfl
  have closing : (text "]").length = 1 := by rfl
  rw [indexed, if_pos]
  · rfl
  · simp only [List.length_append, base, bracket, closing]
    omega

/-- The loop that adds the words. -/
theorem run_words (data : List (BitVec 8)) (entries : List Unit) {start : Nat}
    (buffered : s.buffer.length = start)
    (few : start + entries.length ≤ 2560) (small : ∀ e ∈ s.buffer, Small e) :
    ((entries.zipIdx start).forM fun numbered => do
        put (payloadPutU32 (← indexed "word" numbered.2) (wordAt data numbered.2)) : Handler
          World Unit) s =
      .ok () { s with
        buffer := s.buffer ++ (List.range' start entries.length).map fun i =>
        wordElement i (wordAt data i) } := by
  induction entries generalizing s start with
  | nil =>
    simp only [List.zipIdx_nil, List.length_nil, List.range'_zero, List.map_nil, List.append_nil]
    rfl
  | cons entry rest ih =>
    rw [List.length_cons] at few
    have added := wordElement_small (i := start) (by omega) (wordAt data start)
    have all : ∀ e ∈ s.buffer ++ [wordElement start (wordAt data start)], Small e := by
      intro e member
      rcases List.mem_append.mp member with old | new
      · exact small e old
      · exact List.mem_singleton.mp new ▸ added
    have stored := run_put_small all (by omega)
    simp only [wordElement] at stored
    simp only [List.zipIdx_cons, List.forM, run_bind, run_indexed (i := start) (by omega), stored]
    have later := ih (s := { s with buffer := s.buffer ++ [wordElement start (wordAt data start)] })
      (show _ = start + 1 by simp [buffered]) (by omega) all
    simp only [wordElement] at later ⊢
    rw [later]
    simp [List.range'_succ]

/-- The fields in front of the terminator. -/
def fields (words : List Word) (address : BitVec 64) : List Element :=
  words.mapIdx wordElement ++ [payloadPutU64 (text "address") address,
    payloadPutU32 (text "size") (BitVec.ofNat 32 words.length),
    payloadPutStr (text "msg") (some
      ((text "Dumped " ++ decimal words.length ++ text " bytes.").take 255))]

theorem dump_eq (words : List Word) (address : BitVec 64) :
    dump words address = fields words address ++ [payloadPutTerm] := by
  simp [dump, fields]

theorem readableWords_length (memory : BitVec 64 → Option (BitVec 8)) (count : Nat)
    (address : BitVec 64) :
    (readableWords memory count address).length ≤ count := by
  induction count generalizing address with
  | zero => simp [readableWords]
  | succ count ih =>
    rw [readableWords]
    split
    · exact Nat.zero_le _
    · exact Nat.succ_le_succ (ih _)

theorem mem_mapIdx_iff {words : List Word} {element : Element}
    (member : element ∈ words.mapIdx wordElement) :
    ∃ i word, i < words.length ∧ element = wordElement i word := by
  obtain ⟨i, short, rfl⟩ := List.mem_mapIdx.mp member
  exact ⟨i, _, short, rfl⟩

private theorem names_short :
    (text "address").length = 7 ∧ (text "size").length = 4 ∧ (text "msg").length = 3 := by decide

theorem dump_small {words : List Word} (few : words.length ≤ 2560) (address : BitVec 64) :
    ∀ e ∈ dump words address, Small e := by
  intro e member
  rcases List.mem_append.mp member with early | other
  · obtain ⟨i, word, short, rfl⟩ := mem_mapIdx_iff early
    exact wordElement_small (by omega) word
  · simp only [List.mem_cons, List.not_mem_nil, or_false] at other
    rcases other with rfl | rfl | rfl | rfl
    · exact ⟨by simp [payloadPutU64, names_short], by simp [payloadPutU64]⟩
    · exact ⟨by simp [payloadPutU32, names_short], by simp [payloadPutU32]⟩
    · refine ⟨by simp [payloadPutStr, names_short], ?_⟩
      simp only [payloadPutStr, Option.getD_some, List.length_append, List.length_take,
        List.length_singleton]
      omega
    · exact ⟨by simp [payloadPutTerm], by simp [payloadPutTerm]⟩

theorem decimal_plain (n : Nat) : 0#8 ∉ decimal n := by
  induction n using decimal.induct with
  | case1 n small =>
    rw [decimal, if_pos small, List.mem_singleton]
    intro zero
    have value := congrArg BitVec.toNat zero
    simp only [BitVec.toNat_ofNat] at value
    omega
  | case2 n large ih =>
    rw [decimal, if_neg large, List.mem_append, List.mem_singleton]
    rintro (early | last)
    · exact ih early
    · have value := congrArg BitVec.toNat last
      simp only [BitVec.toNat_ofNat] at value
      omega

theorem fields_built {words : List Word} (few : words.length ≤ 2560) (address : BitVec 64) :
    PayloadPutProofs.Built (fields words address) := by
  have small := dump_small few address
  rw [dump_eq] at small
  suffices all : ∀ e ∈ fields words address,
      0#8 ∉ e.name ∧ PayloadPutProofs.Typed e.type e.data ∧ e.type ≠ .terminator by
    refine ⟨fun e member => ?_, fun e member => (all e member).2.2⟩
    have short := small e (List.mem_append_left _ member)
    have name := short.name
    have data := short.data
    exact ⟨(all e member).1, by omega, by omega, (all e member).2.1⟩
  have plain : 0#8 ∉ text "word" ∧ 0#8 ∉ text "[" ∧ 0#8 ∉ text "]" ∧ 0#8 ∉ text "address" ∧
      0#8 ∉ text "size" ∧
      0#8 ∉ text "msg" := by decide
  obtain ⟨word, bracket, closing, name, sized, message⟩ := plain
  intro e member
  rcases List.mem_append.mp member with early | other
  · obtain ⟨i, value, -, rfl⟩ := mem_mapIdx_iff early
    refine ⟨?_, by simp [wordElement, payloadPutU32, PayloadPutProofs.Typed],
      by simp [wordElement, payloadPutU32]⟩
    simp [wordElement, payloadPutU32, word, bracket, closing, decimal_plain]
  · simp only [List.mem_cons, List.not_mem_nil, or_false] at other
    rcases other with rfl | rfl | rfl
    · exact ⟨name, by simp [payloadPutU64, PayloadPutProofs.Typed], by simp [payloadPutU64]⟩
    · exact ⟨sized, by simp [payloadPutU32, PayloadPutProofs.Typed], by simp [payloadPutU32]⟩
    · exact ⟨message, by simp [payloadPutStr, PayloadPutProofs.Typed], by simp [payloadPutStr]⟩

/-- The words that the handler finds in the bytes that it read. -/
private theorem words_eq (kernel : Kernel) (address : BitVec 64) (size : Word) :
    (List.range ((procfsMemRead kernel address (limit size)).length / 4)).map
        (wordAt (procfsMemRead kernel address (limit size))) =
          readableWords kernel.memory (asked size) address := by
  rw [procfsMemRead, limit_eq]
  exact words_of_readable (asked size) address

/-- The loop adds the words that can be read. -/
private theorem run_report (kernel : Kernel) (empty : s.buffer = []) (address : BitVec 64)
    (size : Word) :
    report (fun i _ => do put (payloadPutU32 (← indexed "word" i)
        (wordAt (procfsMemRead kernel address (limit size)) i)))
        (List.replicate ((procfsMemRead kernel address (limit size)).length / 4) ()) s =
      .ok () { s with buffer := (readableWords kernel.memory (asked size) address).mapIdx wordElement } := by
  have words := words_eq kernel address size
  have few := readableWords_length kernel.memory (asked size) address
  have most : asked size ≤ 2560 := by
    simp only [asked]
    omega
  have count := congrArg List.length words
  rw [List.length_map, List.length_range] at count
  have run := run_words (s := s) (procfsMemRead kernel address (limit size))
    (List.replicate ((procfsMemRead kernel address (limit size)).length / 4) ()) (show _ =
      0 by simp [empty])
    (by rw [List.length_replicate]; omega) (by simp [empty])
  rw [report, run, empty, ← words, List.length_replicate, ← List.range_eq_range']
  have same : ∀ n, (List.range n).map (fun i =>
      wordElement i (wordAt (procfsMemRead kernel address (limit size)) i)) =
      ((List.range n).map (wordAt (procfsMemRead kernel address (limit size)))).mapIdx wordElement := by
    intro n
    apply List.ext_getElem
    · simp
    · simp
  rw [same, List.nil_append]

/-- The operations on the registry return. -/
private theorem run_change (kernel : Kernel) (others : Operations World) (f : World → World)
    (s : Server World) :
    change (operations kernel others) f s = .ok () { s with rest := f s.rest } := rfl

/-- The rest of the answer behind the words. -/
private theorem run_rest (kernel : Kernel) (others : Operations World) (request : Request)
    (pid : Word) {words : List Word}
    (few : words.length ≤ 2560) (address : BitVec 64)
    (buffered : s.buffer = words.mapIdx wordElement) :
    (do
      put (payloadPutU64 (text "address") address)
      put (payloadPutU32 (text "size") (BitVec.ofNat 32 words.length))
      change (operations kernel others) (processPut pid)
      okay request (text "Dumped " ++ decimal words.length ++ text " bytes.") : Handler World Unit) s =
      .error (.answer ⟨packetId "OKAY", request.seq, payloadBytes (dump words address)⟩)
        { s with rest := processPut pid s.rest, buffer := dump words address } := by
  have small := dump_small few address
  have built := fields_built few address
  have stored : ∀ (t : Server World) (element : Element) (later : List Element),
      dump words address = t.buffer ++ element :: later →
      put element t = .ok () { t with buffer := t.buffer ++ [element] } := by
    intro t element later split
    have size := congrArg List.length split
    rw [List.length_append, List.length_cons, dump_eq] at size
    simp only [fields, List.length_append, List.length_mapIdx, List.length_cons, List.length_nil] at size
    refine run_put_small (fun e member => small e ?_) (by omega)
    rw [split]
    rcases List.mem_append.mp member with old | new
    · exact List.mem_append_left _ old
    · exact List.mem_append_right _ (List.mem_singleton.mp new ▸ List.mem_cons_self)
  have whole : dump words address = words.mapIdx wordElement ++ [payloadPutU64 (text "address") address,
      payloadPutU32 (text "size") (BitVec.ofNat 32 words.length), payloadPutStr (text "msg")
        (some ((text "Dumped " ++ decimal words.length ++ text " bytes.").take 255)),
        payloadPutTerm] := rfl
  have bound := length_payloadBytes_le small
  have count : (dump words address).length = words.length + 4 := by simp [dump]
  have checked := PayloadPutProofs.check_built built (by rw [← dump_eq]; omega) (Nat.lt_succ_self _)
  rw [← dump_eq] at checked
  simp only [run_bind, okay, say, respond, run_change, run_get]
  generalize payloadPutU64 (text "address") address = place at whole ⊢
  generalize payloadPutU32 (text "size") (BitVec.ofNat 32 words.length) = count at whole ⊢
  generalize payloadPutStr (text "msg")
    (some ((text "Dumped " ++ decimal words.length ++ text " bytes.").take 255)) = message at whole ⊢
  rw [stored s place [count, message, payloadPutTerm] (by rw [whole, buffered])]
  simp only
  rw [stored _ count [message, payloadPutTerm] (by simp [whole, buffered])]
  simp only
  rw [stored _ message [payloadPutTerm] (by simp [whole, buffered])]
  simp only
  rw [stored _ payloadPutTerm [] (by simp [whole, buffered])]
  have all : s.buffer ++ [place] ++ [count] ++ [message] ++ [payloadPutTerm] = dump words address := by
    simp [whole, buffered]
  simp only [all]
  rw [if_pos checked]
  rfl

/-- With a thread that is stopped and alive, the answer has exactly the words that can be read. -/
theorem dump_answered (asks : Asks request pid address size) (attached : s.rest pid = some target)
    {thread : Thread}
    (any : threadAnyStopped (threads pid s.rest) = some thread) (empty : s.buffer = []) :
    handleMEMD (operations kernel others) request s =
      .error (.answer ⟨packetId "OKAY", request.seq,
          payloadBytes (dump (readableWords kernel.memory (asked size) address) address)⟩)
        { s with
          rest := processPut pid
            (memRead kernel thread.tid address (limit size) (held pid thread.tid s.rest)).2
          buffer := dump (readableWords kernel.memory (asked size) address) address } := by
  have words := words_eq kernel address size
  have count := congrArg List.length words
  rw [List.length_map, List.length_range] at count
  have few := readableWords_length kernel.memory (asked size) address
  have most : asked size ≤ 2560 := by
    simp only [asked]
    omega
  have data : (memRead kernel thread.tid address (limit size) (held pid thread.tid s.rest)).1 =
      procfsMemRead kernel address (limit size) := by
    simp only [memRead]
    split <;> rfl
  rw [handleMEMD_some asks attached any]
  have loop := run_report kernel (s := ⟨s.tracing,
    (memRead kernel thread.tid address (limit size) (held pid thread.tid s.rest)).2, s.buffer⟩)
      empty address size
  simp only [data, answerDump, run_bind]
  rw [loop]
  have rest := run_rest kernel others request pid (Nat.le_trans few most) address
    (s := ⟨s.tracing, (memRead kernel thread.tid address (limit size) (held pid thread.tid s.rest)).2,
      (readableWords kernel.memory (asked size) address).mapIdx wordElement⟩) rfl
  rw [← count] at rest
  exact rest

/-! ## The reference that is left -/

/-- What is kept about threads. -/
def table (entries : List Entry) : List (Word × Bool × Nat) :=
  entries.map fun e => (e.tid, e.running, e.references)

/-- The process is there with other threads, or other references to them. -/
def Disturbed (pid : Word) (target : Target) (w : World) : Prop :=
  ∃ now, w pid = some now ∧ table now.threads ≠ table target.threads

theorem table_dup {entries : List Entry} {entry : Entry} (member : entry ∈ entries) :
    table (entries.map fun e => if e.tid =
      entry.tid then { e with references := e.references + 1 } else e) ≠
      table entries := by
  intro same
  rw [table, table, List.map_map, List.map_inj_left] at same
  have here := same entry member
  simp at here

theorem table_exit {entries : List Entry} {entry : Entry} (member : entry ∈ entries) :
    table ((entries.map fun e => if e.tid = entry.tid then { e with references := e.references + 1 }
      else e).filter
      fun e => e.tid ≠ entry.tid) ≠ table entries := by
  intro same
  have listed : (entry.tid, entry.running, entry.references) ∈ table entries :=
    List.mem_map_of_mem member
  rw [← same] at listed
  obtain ⟨left, stays, tid⟩ := List.mem_map.mp listed
  have other := (List.mem_filter.mp stays).2
  simp only [Prod.mk.injEq] at tid
  simp [tid.1] at other

/-- The dump leaves the thread with one reference more, or without its place in the registry. -/
theorem disturbed_read (kernel : Kernel) (address : BitVec 64) (attached : w pid = some target)
    {entry : Entry} (member : entry ∈ target.threads)
    (count : Word) : Disturbed pid target
      (memRead kernel entry.tid address count (held pid entry.tid w)).2 := by
  simp only [memRead]
  split
  · refine ⟨_, by simp [threadExit, held, threadDup, changeTarget, attached]; rfl, ?_⟩
    simpa using table_exit member
  · exact ⟨_, by simp [held, threadDup, changeTarget, attached]; rfl, table_dup member⟩

theorem keeps_answerDump (kernel : Kernel) (others : Operations World) (request : Request)
    (address : BitVec 64) (data : List (BitVec 8)) :
    Keeps (fun s : Server World => Disturbed pid target s.rest)
    (answerDump (operations kernel others) request pid address data) := by
  refine keeps_bind (keeps_report fun i _ => keeps_bind (keeps_indexed _ _) fun _ => keeps_put _)
    fun _ => ?_
  refine keeps_bind (keeps_put _) fun _ => keeps_bind (keeps_put _) fun _ => ?_
  refine keeps_bind (keeps_bind (keeps_modify fun s disturbed => ?_) fun _ => keeps_returns)
    fun _ => keeps_say _ _
  obtain ⟨now, here, differs⟩ := disturbed
  exact ⟨{ now with references := now.references - 1 }, by simp [processPut, changeTarget, here],
    differs⟩

/-- A memory dump is right in no state of an attached process: without a stopped thread
the server aborts, and with one the reference to it is kept. -/
theorem never_right (asks : Asks request pid address size) (attached : s.rest pid = some target) :
    ¬Right kernel others request s address size := by
  rintro ⟨response, after, run, -, kept⟩
  cases any : threadAnyStopped (threads pid s.rest) with
  | none =>
    obtain ⟨broken, aborts⟩ := handleMEMD_none kernel others asks attached any
    rw [aborts] at run
    cases run
  | some thread =>
    obtain ⟨member, -, -⟩ := threadAnyStopped_some any
    simp only [threads, attached] at member
    obtain ⟨entry, listed, rfl⟩ := List.mem_map.mp member
    rw [handleMEMD_some asks attached any] at run
    let read := memRead kernel entry.tid address (limit size) (held pid entry.tid s.rest)
    have disturbed := keeps_answerDump kernel others request address read.1 { s with rest := read.2 }
      (disturbed_read kernel address attached listed (limit size))
    rw [after_of_error run] at disturbed
    obtain ⟨now, here, differs⟩ := disturbed
    have same := kept pid
    simp only [ledger, here, attached, Option.map_some, Option.some.injEq, Prod.mk.injEq] at same
    exact differs same.2

/-- Four bytes at the address 0 of the process 1. -/
def dumpRequest : Request := ⟨packetId "MEMD", 7#32, 66#32, SpawnProofs.holding
  [0x10, 0, 4, 0, 4, 0, 0, 0, 0x70, 0x69, 0x64, 0, 1, 0, 0, 0,
    0x20, 0, 8, 0, 8, 0, 0, 0, 0x61, 0x64, 0x64, 0x72, 0x65, 0x73, 0x73, 0, 0, 0, 0, 0, 0, 0, 0, 0,
    0x10, 0, 5, 0, 4, 0, 0, 0, 0x73, 0x69, 0x7a, 0x65, 0, 4, 0, 0, 0,
    0, 0, 1, 0, 0, 0, 0, 0, 0]⟩

private theorem dumpRequest_asks : Asks dumpRequest 1 0 4 := ⟨by decide, by decide, by decide⟩

/-- A server with one process, and in it one thread. -/
def oneThread (running : Bool) : Server World :=
  ⟨true, fun pid => if pid = 1 then some ⟨2, [⟨1, running, false, 1⟩]⟩ else none, []⟩

theorem stopped_never_right : (oneThread false).rest 1 = some ⟨2, [⟨1, false, false, 1⟩]⟩ ∧
    ∀ others, ¬Right ⟨fun _ => some 0, false⟩ others dumpRequest (oneThread false) 0 4 :=
  ⟨rfl, fun _ => never_right dumpRequest_asks rfl⟩

/-- While the only thread runs, the server aborts. -/
theorem running_aborts : Asks dumpRequest 1 0 4 ∧ ∀ kernel others,
    (∃ after, handleMEMD (operations kernel others) dumpRequest (oneThread true) =
      .error .broken after) ∧
      ¬Right kernel others dumpRequest (oneThread true) 0 4 := by
  refine ⟨dumpRequest_asks, fun kernel others => ?_⟩
  obtain ⟨broken, aborts⟩ := handleMEMD_none kernel others (s := oneThread true)
    dumpRequest_asks rfl rfl
  refine ⟨⟨broken, aborts⟩, ?_⟩
  rintro ⟨response, after, run, -, -⟩
  rw [aborts] at run
  cases run

end Adbi.MemDumpProofs
