import Adbi.PayloadProofs
import Adbi.Spawn

/-! The argument vector of `handle_SPWN`. The size of the block wraps and the
loop does not, so that all depends on where the first missing field is. -/
namespace Adbi.SpawnProofs
open Adbi.Lib Adbi.Payload Adbi.Spawn
open Adbi.Protocol (text decimal)
open Adbi.PayloadProofs (Accepted)

variable {granted : Word → Bool} {payload : Memory} {fuel : Nat} {argv final memory : Argv}
  {left i j : Nat}

/-- The field `argv[i]`, as the accessor of strings finds it. -/
def argument (payload : Memory) (fuel i : Nat) : Option (Option Word) :=
  (payloadGetStr payload (fieldName i) fuel).value

/-- The field `argc`. -/
def argcOf (payload : Memory) (fuel : Nat) : Option Word :=
  match (payloadGetU32 payload (text "argc") fuel).value with
  | some (some place) => some (loadU32 payload place).value
  | _ => none

/-- The handler stores inside of its block only, and what it passes on are the
arguments of the payload and a null pointer. -/
structure Right (granted : Word → Bool) (payload : Memory) (fuel : Nat) (memory : Argv) : Prop where
  inside : ∀ i ∈ (handleSPWN granted payload fuel memory).reads,
    ∃ argc, argcOf payload fuel = some argc ∧ i < slots argc
  passed : ∀ argv, (handleSPWN granted payload fuel memory).value = .spawn argv →
    ∃ argc, argcOf payload fuel = some argc ∧ argv argc.toNat = none ∧
      ∀ i < argc.toNat, ∃ place, argument payload fuel i = some (some place) ∧ argv i = some place

/-- The size of the block does not wrap, or a field is missing before its end, or
the block is so large that the name of a field before its end would not fit. -/
def Bounded (granted : Word → Bool) (payload : Memory) (fuel : Nat) : Prop :=
  ∀ argc, argcOf payload fuel = some argc → granted (allocation argc) = true →
    argc.toNat + 1 < 2 ^ 30 ∨ (∃ i < slots argc, argument payload fuel i = some none) ∨
    10 ^ 9 ≤ slots argc

/-! ## Names and sizes -/

theorem decimal_length (n k : Nat) : (decimal n).length ≤ k + 1 ↔ n < 10 ^ (k + 1) := by
  induction k generalizing n with
  | zero =>
    rw [decimal]
    split
    · simpa
    · have longer : 0 < (decimal (n / 10)).length := by rw [decimal]; split <;> simp
      rw [List.length_append, List.length_singleton]
      omega
  | succ k ih =>
    rw [decimal]
    split
    · rename_i small
      have power : 10 ≤ 10 ^ (k + 1 + 1) := Nat.le_self_pow (by omega) 10
      simp
      omega
    · have shorter := ih (n / 10)
      rw [Nat.div_lt_iff_lt_mul (by omega), ← Nat.pow_succ] at shorter
      rw [List.length_append, List.length_singleton, ← shorter]
      omega

theorem name_fits_iff (i : Nat) : (fieldName i).length < 16 ↔ i < 10 ^ 9 := by
  have digits := decimal_length i 8
  have base : (text "argv").length = 4 := by decide
  have bracket : (text "[").length = 1 := by decide
  have closing : (text "]").length = 1 := by decide
  rw [← digits]
  simp only [fieldName, List.length_append, base, bracket, closing]
  omega

theorem slots_eq (argc : Word) : slots argc = (argc.toNat + 1) % 2 ^ 30 := by
  simp only [slots, allocation, BitVec.toNat_mul, BitVec.toNat_add, BitVec.toNat_ofNat]
  omega

/-! ## The loop -/

/-- The loop goes on behind a field. -/
def Passed (payload : Memory) (fuel i : Nat) : Prop :=
  (fieldName i).length < 16 ∧ ∃ place, argument payload fuel i = some (some place)

/-- The loop stores a pointer for a field. -/
def Looked (payload : Memory) (fuel i : Nat) : Prop :=
  (fieldName i).length < 16 ∧ argument payload fuel i ≠ none

/-- A field that is there. -/
private theorem readArgv_passed (fits : (fieldName i).length < 16) {place : Word}
    (found : argument payload fuel i = some (some place)) :
    readArgv payload fuel (left + 1) i argv =
      let rest := readArgv payload fuel left (i + 1) fun j => if j = i then some place else argv j
      ⟨rest.value, i :: rest.reads⟩ := by
  simp only [argument] at found
  simp only [readArgv, if_pos fits, found]
  rfl

/-- A field at which the loop ends. -/
private theorem readArgv_stopped (left : Nat) (argv : Argv) (stops : ¬Passed payload fuel i) :
    ∃ outcome reads, readArgv payload fuel (left + 1) i argv = ⟨.error outcome, reads⟩ ∧
      (∀ argv, outcome ≠ .spawn argv) ∧ ∀ j, j ∈ reads ↔ j = i ∧ Looked payload fuel i := by
  by_cases fits : (fieldName i).length < 16
  · rcases found : argument payload fuel i with _ | _ | place
    · refine ⟨.endless, [], ?_, nofun, by simp [Looked, found]⟩
      simp only [argument] at found
      simp only [readArgv, if_pos fits, found]
      rfl
    · refine ⟨.malformed (fieldName i), [i], ?_, nofun, by simp [Looked, found, fits]⟩
      simp only [argument] at found
      simp only [readArgv, if_pos fits, found]
      rfl
    · exact absurd ⟨fits, place, found⟩ stops
  · refine ⟨.aborted, [], ?_, nofun, by simp [Looked, fits]⟩
    simp only [readArgv, if_neg fits]
    rfl

/-- Where the loop stores: at every field up to the first one at which it ends. -/
theorem mem_readArgv_iff : j ∈ (readArgv payload fuel left i argv).reads ↔
    i ≤ j ∧ j < i + left ∧ Looked payload fuel j ∧ ∀ k, i ≤ k → k < j → Passed payload fuel k := by
  induction left generalizing i argv with
  | zero =>
    refine iff_of_false (fun member => ?_) (by omega)
    exact absurd member (by simp [readArgv]; exact List.not_mem_nil)
  | succ left ih =>
    by_cases passes : Passed payload fuel i
    · obtain ⟨fits, place, found⟩ := passes
      rw [readArgv_passed fits found]
      simp only [List.mem_cons, ih]
      constructor
      · rintro (rfl | ⟨low, high, looked, before⟩)
        · exact ⟨by omega, by omega, ⟨fits, by simp [found]⟩, fun k _ _ => by omega⟩
        · refine ⟨by omega, by omega, looked, fun k above below => ?_⟩
          by_cases first : k = i
          · exact first ▸ ⟨fits, place, found⟩
          · exact before k (by omega) below
      · rintro ⟨low, high, looked, before⟩
        by_cases first : j = i
        · exact .inl first
        · exact .inr ⟨by omega, by omega, looked, fun k above below => before k (by omega) below⟩
    · obtain ⟨outcome, reads, run, -, stored⟩ := readArgv_stopped left argv passes
      rw [run]
      simp only [stored]
      constructor
      · rintro ⟨rfl, looked⟩
        exact ⟨by omega, by omega, looked, fun k _ _ => by omega⟩
      · rintro ⟨low, high, looked, before⟩
        by_cases first : j = i
        · exact ⟨first, first ▸ looked⟩
        · exact absurd (before i (by omega) (by omega)) passes

/-- A loop that comes to its end has passed every field and has stored a pointer to each. -/
theorem readArgv_ok (run : (readArgv payload fuel left i argv).value = .ok final) :
    (∀ k, i ≤ k → k < i + left →
      (fieldName k).length < 16 ∧ ∃ place, argument payload fuel k = some (some place) ∧
      final k = some place) ∧
      ∀ k, k < i → final k = argv k := by
  induction left generalizing i argv with
  | zero =>
    obtain rfl : argv = final := by simpa [readArgv] using run
    exact ⟨fun k above below => by omega, fun k _ => rfl⟩
  | succ left ih =>
    by_cases passes : Passed payload fuel i
    · obtain ⟨fits, place, found⟩ := passes
      rw [readArgv_passed fits found] at run
      obtain ⟨later, kept⟩ := ih run
      refine ⟨fun k above below => ?_, fun k before => ?_⟩
      · by_cases first : k = i
        · subst first
          exact ⟨fits, place, found, by simpa using kept k (by omega)⟩
        · exact later k (by omega) (by omega)
      · have other : k ≠ i := by omega
        simpa [other] using kept k (by omega)
    · obtain ⟨outcome, reads, stopped, -, -⟩ := readArgv_stopped left argv passes
      rw [stopped] at run
      cases run

/-- No failure of the loop goes on to `process_spawn`. -/
theorem readArgv_error {outcome : Outcome}
    (run : (readArgv payload fuel left i argv).value = .error outcome)
    (passedOn : Argv) : outcome ≠ .spawn passedOn := by
  induction left generalizing i argv with
  | zero => simp [readArgv] at run
  | succ left ih =>
    by_cases passes : Passed payload fuel i
    · obtain ⟨fits, place, found⟩ := passes
      rw [readArgv_passed fits found] at run
      exact ih run
    · obtain ⟨_, reads, stopped, spawns, -⟩ := readArgv_stopped left argv passes
      rw [stopped] at run
      cases run
      exact spawns passedOn

/-- In an accepted payload every search for an argument ends. -/
theorem argument_found {length : Word} (accepted : Accepted payload length)
    (enough : length.toNat < fuel) (i : Nat) :
    argument payload fuel i ≠ none := by
  have ends := PayloadProofs.find_ends (fieldName i) (PayloadProofs.accepted_iff_chain.mp accepted)
    enough
  intro endless
  apply ends
  simp only [argument, payloadGetStr, payloadGet, payloadFindTyped, payloadFind,
    Traced.value_bind] at endless
  split at endless <;> rename_i typed
  · split at typed <;> rename_i found
    · exact found
    · simp at typed
    · simp only [Traced.value_bind] at typed
      split at typed <;> simp at typed
  · simp at endless
  · simp at endless

/-! ## The handler -/

private theorem handleSPWN_none (granted : Word → Bool) (memory : Argv)
    (missing : argcOf payload fuel = none) :
    (handleSPWN granted payload fuel memory).reads = [] ∧
      ∀ argv, (handleSPWN granted payload fuel memory).value ≠ .spawn argv := by
  simp only [argcOf] at missing
  simp only [handleSPWN]
  split at missing <;> rename_i found
  · cases missing
  · rcases lookup : (payloadGetU32 payload (text "argc") fuel).value with _ | _ | place
    · exact ⟨rfl, nofun⟩
    · exact ⟨rfl, nofun⟩
    · exact absurd lookup (found place)

private theorem handleSPWN_some (granted : Word → Bool) (memory : Argv) {argc : Word}
    (here : argcOf payload fuel = some argc) :
    handleSPWN granted payload fuel memory =
      if granted (allocation argc) then do
        match ← readArgv payload fuel argc.toNat 0 memory with
        | .error outcome => return outcome
        | .ok argv => do
          let argv ← store argv argc.toNat none
          return .spawn argv
      else return .aborted := by
  simp only [argcOf] at here
  split at here <;> rename_i found
  · obtain rfl := Option.some.inj here
    unfold handleSPWN
    generalize (payloadGetU32 payload (text "argc") fuel).value = lookup at found ⊢
    subst found
    rfl
  · cases here

private theorem handleSPWN_completes {argc : Word} (here : argcOf payload fuel = some argc)
    (enough : granted (allocation argc) = true)
    (run : (readArgv payload fuel argc.toNat 0 memory).value = .ok final) :
    handleSPWN granted payload fuel memory = ⟨.spawn fun j => if j = argc.toNat then none else final j,
      (readArgv payload fuel argc.toNat 0 memory).reads ++ [argc.toNat]⟩ := by
  rw [handleSPWN_some _ _ here, if_pos enough]
  change Traced.mk (Traced.value _) (_ ++ Traced.reads _) = _
  rw [run]
  rfl

private theorem handleSPWN_stops {argc : Word} (here : argcOf payload fuel = some argc)
    (enough : granted (allocation argc) = true) {outcome : Outcome}
    (run : (readArgv payload fuel argc.toNat 0 memory).value = .error outcome) :
    handleSPWN granted payload fuel memory =
      ⟨outcome, (readArgv payload fuel argc.toNat 0 memory).reads⟩ := by
  rw [handleSPWN_some _ _ here, if_pos enough]
  change Traced.mk (Traced.value _) (_ ++ Traced.reads _) = _
  rw [run]
  exact congrArg _ (List.append_nil _)

/-- The loop does not come to the end of a block whose size wrapped. -/
private theorem ends_inside {argc : Word} (wraps : 2 ^ 30 ≤ argc.toNat + 1)
    (bounded : (∃ i < slots argc, argument payload fuel i = some none) ∨ 10 ^ 9 ≤ slots argc) :
    ∃ k, k < argc.toNat ∧ ¬Passed payload fuel k ∧ ∀ j ≤ k, Looked payload fuel j → j < slots argc := by
  have size := slots_eq argc
  rcases bounded with ⟨k, inside, missing⟩ | long
  · refine ⟨k, by omega, ?_, fun j before _ => by omega⟩
    rintro ⟨-, place, found⟩
    rw [missing] at found
    cases found
  · refine ⟨10 ^ 9, by omega, ?_, fun j _ looked => ?_⟩
    · rintro ⟨fits, -⟩
      exact absurd ((name_fits_iff _).mp fits) (Nat.lt_irrefl _)
    · have := (name_fits_iff j).mp looked.1
      omega

/-- Which stores the loop makes when its block is large enough for them. -/
private theorem stores_inside {argc : Word}
    (bounded : argc.toNat + 1 < 2 ^ 30 ∨ (∃ i < slots argc, argument payload fuel i = some none) ∨
      10 ^ 9 ≤ slots argc)
    (member : j ∈ (readArgv payload fuel argc.toNat 0 memory).reads) : j < slots argc := by
  obtain ⟨-, below, looked, before⟩ := mem_readArgv_iff.mp member
  rcases bounded with small | bounded
  · have := slots_eq argc
    omega
  · by_cases wraps : 2 ^ 30 ≤ argc.toNat + 1
    · obtain ⟨k, -, ends, inside⟩ := ends_inside wraps bounded
      refine inside j ?_ looked
      by_contra later
      exact ends (before k (Nat.zero_le _) (by omega))
    · have := slots_eq argc
      omega

/-- A field is missing early enough, or the first store behind the block is made. -/
private theorem stores_behind (memory : Argv) {argc : Word} (all : ∀ i, argument payload fuel i ≠ none)
    (wraps : 2 ^ 30 ≤ argc.toNat + 1) (present : ∀ i < slots argc, argument payload fuel i ≠ some none)
    (short : slots argc < 10 ^ 9) : slots argc ∈ (readArgv payload fuel argc.toNat 0 memory).reads := by
  have size := slots_eq argc
  refine mem_readArgv_iff.mpr ⟨by omega, by omega, ⟨(name_fits_iff _).mpr short, all _⟩,
    fun k _ below => ?_⟩
  refine ⟨(name_fits_iff k).mpr (by omega), ?_⟩
  rcases found : argument payload fuel k with _ | _ | place
  · exact absurd found (all k)
  · exact absurd found (present k below)
  · exact ⟨place, rfl⟩

private theorem bounded_of_right (all : ∀ i, argument payload fuel i ≠ none)
    (right : Right granted payload fuel memory) : Bounded granted payload fuel := by
  intro argc here allocated
  by_contra broken
  simp only [not_or, not_exists, not_and, Nat.not_le, Nat.not_lt] at broken
  obtain ⟨wraps, present, short⟩ := broken
  have behind := stores_behind memory all wraps present short
  have stored : slots argc ∈ (handleSPWN granted payload fuel memory).reads := by
    cases run : (readArgv payload fuel argc.toNat 0 memory).value with
    | ok final =>
      rw [handleSPWN_completes here allocated run]
      exact List.mem_append_left _ behind
    | error outcome =>
      rw [handleSPWN_stops here allocated run]
      exact behind
  obtain ⟨other, same, inside⟩ := right.inside _ stored
  obtain rfl : argc = other := Option.some.inj (here.symm.trans same)
  exact Nat.lt_irrefl _ inside

/-- A loop that completes has stored into a block with room for the null pointer, too. -/
private theorem room_for_null {argc : Word}
    (run : (readArgv payload fuel argc.toNat 0 memory).value = .ok final)
    (fits : argc.toNat + 1 < 2 ^ 30 ∨ (∃ i < slots argc, argument payload fuel i = some none) ∨
      10 ^ 9 ≤ slots argc) :
    argc.toNat < slots argc := by
  have size := slots_eq argc
  rcases fits with small | bounded
  · omega
  · by_contra large
    obtain ⟨k, below, ends, -⟩ := ends_inside (by omega) bounded
    obtain ⟨short, place, found, -⟩ := (readArgv_ok run).1 k (Nat.zero_le _) (by omega)
    exact ends ⟨short, place, found⟩

private theorem right_of_bounded (bounded : Bounded granted payload fuel) :
    Right granted payload fuel memory := by
  cases here : argcOf payload fuel with
  | none =>
    obtain ⟨nothing, spawns⟩ := handleSPWN_none granted memory here
    exact ⟨by simp [nothing], fun argv spawned => absurd spawned (spawns argv)⟩
  | some argc =>
    by_cases allocated : granted (allocation argc) = true
    · have fits := bounded argc here allocated
      cases run : (readArgv payload fuel argc.toNat 0 memory).value with
      | ok final =>
        refine ⟨fun i member => ⟨argc, here, ?_⟩, fun argv spawned => ⟨argc, here, ?_⟩⟩
        · rw [handleSPWN_completes here allocated run] at member
          rcases List.mem_append.mp member with early | last
          · exact stores_inside fits early
          · obtain rfl := List.mem_singleton.mp last
            exact room_for_null run fits
        · rw [handleSPWN_completes here allocated run] at spawned
          obtain rfl := Outcome.spawn.inj spawned
          refine ⟨if_pos rfl, fun i below => ?_⟩
          obtain ⟨-, place, found, stored⟩ := (readArgv_ok run).1 i (Nat.zero_le _) (by omega)
          have other : i ≠ argc.toNat := by omega
          exact ⟨place, found, by simpa [other] using stored⟩
      | error outcome =>
        refine ⟨fun i member => ⟨argc, here, ?_⟩, fun argv spawned => ?_⟩
        · rw [handleSPWN_stops here allocated run] at member
          exact stores_inside fits member
        · rw [handleSPWN_stops here allocated run] at spawned
          exact absurd spawned (readArgv_error run argv)
    · have aborts := handleSPWN_some granted memory here
      rw [if_neg allocated] at aborts
      constructor
      · rw [aborts]
        exact fun i member => absurd member List.not_mem_nil
      · rw [aborts]
        exact fun argv spawned => nomatch spawned

/-- On an accepted payload, the handler uses its block rightly exactly when the
size of the block did not wrap or a field is missing soon enough. -/
theorem argv_right_iff {length : Word} (accepted : Accepted payload length)
    (enough : length.toNat < fuel) :
    Right granted payload fuel memory ↔ Bounded granted payload fuel :=
  ⟨bounded_of_right (argument_found accepted enough), right_of_bounded⟩

/-- A payload that is at the start of its memory. -/
def holding (bytes : List (BitVec 8)) : Memory := fun address => bytes.getD address.toNat 0

/-- One argument. -/
def oneArgument : Memory := holding
  [0x10, 0, 5, 0, 4, 0, 0, 0, 0x61, 0x72, 0x67, 0x63, 0, 1, 0, 0, 0,
    0x80, 0, 8, 0, 2, 0, 0, 0, 0x61, 0x72, 0x67, 0x76, 0x5b, 0x30, 0x5d, 0, 0x78, 0,
    0, 0, 1, 0, 0, 0, 0, 0, 0]

theorem oneArgument_right : Right (fun _ => true) oneArgument 45 fun _ => none := by
  refine (argv_right_iff (show Accepted oneArgument 44#32 from ⟨3, by decide⟩) (by decide)).mpr
    fun argc here _ => .inl ?_
  obtain rfl : 1#32 = argc := Option.some.inj
    ((by decide : argcOf oneArgument 45 = some 1#32).symm.trans here)
  decide

/-- `2^32 - 1` arguments, and none of them. -/
def allArguments : Memory := holding
  [0x10, 0, 5, 0, 4, 0, 0, 0, 0x61, 0x72, 0x67, 0x63, 0, 0xff, 0xff, 0xff, 0xff, 0, 0, 1, 0,
    0, 0, 0, 0, 0]

/-- No memory is allocated for the vector, and the null pointer of the first missing field is stored
into it. -/
theorem allArguments_stored_outside : Accepted allArguments 26#32 ∧ argcOf allArguments 27 =
    some 0xffffffff#32 ∧
    allocation 0xffffffff#32 = 0#32 ∧ ¬Right (fun _ => true) allArguments 27 fun _ => none := by
  have accepted : Accepted allArguments 26#32 := ⟨2, by decide⟩
  have here : argcOf allArguments 27 = some 0xffffffff#32 := by decide
  refine ⟨accepted, here, by decide, fun right => ?_⟩
  rcases bounded_of_right (argument_found accepted (by decide)) right _ here rfl with
    small | ⟨i, inside, -⟩ | long
  · exact absurd small (by decide)
  · exact absurd inside (by rw [slots_eq]; simp)
  · exact absurd long (by rw [slots_eq]; simp)

/-! ## What the handler passes on -/

section
open Adbi.Protocol (Operations Request Server Handler stringAt)

variable {ω : Type} {ops : Operations ω} {request : Request} {s : Server ω}

/-- The strings that so many pointers from the `i`-th on lead to. -/
def strings (memory : Memory) (argv : Argv) (i count : Nat) : List CString :=
  (List.range' i count).map fun k => stringAt memory ((argv k).getD 0#32)

private theorem readStr_argument {place : Word}
    (found : argument request.payload (request.length.toNat + 1) i = some (some place)) :
    Protocol.readStr request (fieldName i) s = .ok (stringAt request.payload place) s := by
  simp only [argument, payloadGetStr] at found
  simp only [Protocol.readStr, Protocol.readPtr, found]
  rfl

/-- A field of the vector, from its name to the string. -/
private theorem indexed_argument (fits : (fieldName i).length < 16) :
    Protocol.indexed "argv" i s = EStateM.Result.ok (ε := Protocol.Exit) (fieldName i) s := by
  simp only [Protocol.indexed]
  exact congrFun (if_pos fits) s

/-- Where the loop comes to its end inside of the block, the arguments passed on are the strings at
its pointers. -/
theorem readArgv_strings {slots : Nat}
    (run : (readArgv request.payload (request.length.toNat + 1) left i argv).value = .ok final)
    (room : i + left ≤ slots) :
    Protocol.readArgv request slots left i s = .ok (strings request.payload final i left) s := by
  induction left generalizing i argv with
  | zero => rfl
  | succ left ih =>
    by_cases passes : Passed request.payload (request.length.toNat + 1) i
    · obtain ⟨fits, place, found⟩ := passes
      rw [readArgv_passed fits found] at run
      have kept : final i = some place := by simpa using (readArgv_ok run).2 i (by omega)
      have later := ih run (by omega)
      have inside : i < slots := by omega
      rw [Protocol.readArgv, run_bind, indexed_argument fits]
      simp only [if_pos inside, run_bind, readStr_argument found, later]
      simp [strings, List.range'_succ, kept]
    · obtain ⟨outcome, reads, stopped, -, -⟩ := readArgv_stopped left argv passes
      rw [stopped] at run
      cases run

/-- The end of `handle_SPWN`, from the call of `process_spawn` on. -/
def spawned (ops : Operations ω) (request : Request) (arguments : List CString) : Handler ω Unit := do
  match ← Protocol.call ops (ops.processSpawn (← get).tracing arguments) with
  | some pid => Protocol.okay request (text "Spawned " ++ decimal pid.toNat ++ text ".")
  | none => Protocol.fail request (text "Error spawning process.")

private theorem readU32_argc {argc : Word}
    (here : argcOf request.payload (request.length.toNat + 1) = some argc) :
    Protocol.readU32 request "argc" s = .ok argc s := by
  simp only [argcOf] at here
  split at here <;> rename_i found
  · obtain rfl := Option.some.inj here
    simp only [payloadGetU32] at found
    simp only [Protocol.readU32, Protocol.readPtr, run_bind, found]
    rfl
  · cases here

/-- The size of the block is four times the number of its pointers. -/
private theorem allocation_eq (argc : Word) :
    (allocation argc).toNat = 4 * ((argc.toNat + 1) % 2 ^ 30) := by
  rw [allocation, BitVec.toNat_mul, BitVec.toNat_add]
  simp only [BitVec.toNat_ofNat]
  omega

/-- When the handler stores nothing outside of its block, `process_spawn` is called with the strings
that the block leads to. -/
theorem handleSPWN_strings {argc : Word}
    (here : argcOf request.payload (request.length.toNat + 1) = some argc)
    (run : (handleSPWN (fun size => ops.allocates size.toNat s.rest) request.payload
      (request.length.toNat + 1) memory).value =
      .spawn argv)
    (inside : ∀ k ∈ (handleSPWN (fun size => ops.allocates size.toNat s.rest) request.payload
      (request.length.toNat + 1)
      memory).reads, k < slots argc) :
    Protocol.handleSPWN ops request s =
      spawned ops request (strings request.payload argv 0 argc.toNat) s := by
  by_cases enough : ops.allocates (allocation argc).toNat s.rest = true
  · cases loop : (readArgv request.payload (request.length.toNat + 1) argc.toNat 0 memory).value with
    | error outcome =>
      rw [handleSPWN_stops here enough loop] at run
      exact absurd run (readArgv_error loop argv)
    | ok final =>
      rw [handleSPWN_completes here enough loop] at run inside
      cases run
      have room : argc.toNat < slots argc := inside _ (List.mem_append_right _ List.mem_cons_self)
      have read := readArgv_strings (s := s) loop (show 0 + argc.toNat ≤ slots argc by omega)
      have same : strings request.payload (fun j => if j = argc.toNat then none else final j)
          0 argc.toNat =
          strings request.payload final 0 argc.toNat := by
        refine List.map_congr_left fun k member => ?_
        have before := List.mem_range'_1.mp member
        have other : k ≠ argc.toNat := by omega
        simp only [if_neg other]
      rw [same]
      rw [slots_eq] at read room
      rw [allocation_eq] at enough
      simp only [Protocol.handleSPWN, run_bind, readU32_argc here, Protocol.adbiMalloc, run_get,
        enough, Bool.not_true,
        Bool.false_eq_true, ↓reduceIte, run_pure, read, if_pos room]
      rfl
  · rw [handleSPWN_some _ _ here, if_neg enough] at run
    cases run

end

end Adbi.SpawnProofs
