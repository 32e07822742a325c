import Adbi.StripComments
import Mathlib.Data.List.Chain

/-! What `strip_comments` leaves of a text, against the lexing of C. The machine
takes a slash for half of a comment token, and when it is not, the byte behind it for
code; the lexing looks at two bytes at once. -/
namespace Adbi.StripCommentsProofs
open Adbi.Lib Adbi.StripComments

/-! ## Lexing -/

/-- What a byte is part of. -/
inductive Role where
  | code
  | string
  | char
  | line
  | block
  deriving DecidableEq

def Role.IsLiteral (role : Role) : Prop := role = .string ∨ role = .char

def Role.IsComment (role : Role) : Prop := role = .line ∨ role = .block

instance : DecidablePred Role.IsLiteral := fun _ => inferInstanceAs (Decidable (_ ∨ _))

instance : DecidablePred Role.IsComment := fun _ => inferInstanceAs (Decidable (_ ∨ _))

/-- Two bytes that belong together: their role, and the role behind them. -/
def pair : Role → Byte → Byte → Option (Role × Role)
  | .code, first, second =>
    if first = slash ∧ second = slash then some (.line, .line)
    else if first = slash ∧ second = aster then some (.block, .block)
    else none
  | .string, first, _ => if first = backslash then some (.string, .string) else none
  | .char, first, _ => if first = backslash then some (.char, .char) else none
  | .line, _, _ => none
  | .block, first, second => if first = aster ∧ second = slash then some (.block, .code) else none

/-- A byte on its own: its role, and the role behind it. A newline in a literal, which C does not
allow, is an ordinary byte of it. -/
def single : Role → Byte → Role × Role
  | .code, byte =>
    if byte = quote then (.string, .string) else if byte = apostrophe then (.char, .char)
      else (.code, .code)
  | .string, byte => (.string, if byte = quote then .code else .string)
  | .char, byte => (.char, if byte = apostrophe then .code else .char)
  | .line, byte => if byte = newline then (.code, .code) else (.line, .line)
  | .block, _ => (.block, .block)

/-- Each byte of a text with its role. -/
def marks : Role → Bytes → List (Byte × Role)
  | _, [] => []
  | role, [byte] => [(byte, (single role byte).1)]
  | role, first :: second :: rest =>
    match pair role first second with
    | some (inside, behind) => (first, inside) :: (second, inside) :: marks behind rest
    | none => (first, (single role first).1) :: marks (single role first).2 (second :: rest)

/-- The role that the text ends in. -/
def ending : Role → Bytes → Role
  | role, [] => role
  | role, [byte] => (single role byte).2
  | role, first :: second :: rest =>
    match pair role first second with
    | some (_, behind) => ending behind rest
    | none => ending (single role first).2 (second :: rest)

/-- The bytes that are not in a comment, and every newline. -/
def shown (mark : Byte × Role) : Bytes := if mark.2.IsComment ∧ mark.1 ≠ newline then [] else [mark.1]

/-- No literal and no block comment is open at the end. -/
def Closed (text : Bytes) : Prop := ¬(ending .code text).IsLiteral ∧ ending .code text ≠ .block

instance : DecidablePred Closed := fun _ => inferInstanceAs (Decidable (_ ∧ _))

/-- The states of the machine in literals. -/
def InLiteral (state : State) : Prop :=
  state = .string ∨ state = .stringEscape ∨ state = .char ∨ state = .charEscape

/-- What is specified of the function on a text. -/
structure Follows (text : Bytes) : Prop where
  output : Closed text → (stripComments text true).1 = (marks .code text).flatMap shown
  newlines : Closed text → (stripComments text true).1.count newline = text.count newline
  literals : ∀ front behind, text = front ++ behind → (ending .code front).IsLiteral →
      InLiteral (machine.after .code front)
  raises : (stripComments text true).2.isSome ↔ ¬Closed text

/-- A slash of the code, and not a literal behind it. -/
def Apart (mark next : Byte × Role) : Prop := mark = (slash, .code) → ¬next.2.IsLiteral

/-- Every slash of the code has a byte behind it, which does not belong to a literal. -/
structure Clean (text : Bytes) : Prop where
  apart : (marks .code text).IsChain Apart
  last : (marks .code text).getLast? ≠ some (slash, .code)

/-! ## One token at a time -/

variable {role : Role} {first second byte : Byte} {rest text : Bytes} {state : State}

theorem marks_pair {inside behind : Role} (paired : pair role first second = some (inside, behind)) :
    marks role (first :: second :: rest) = (first, inside) :: (second, inside) :: marks behind rest := by
  rw [marks, paired]

theorem ending_pair {inside behind : Role} (paired : pair role first second = some (inside, behind)) :
    ending role (first :: second :: rest) = ending behind rest := by
  rw [ending, paired]

theorem marks_single (alone : ∀ second ∈ rest.head?, pair role first second = none) :
    marks role (first :: rest) = (first, (single role first).1) :: marks (single role first).2 rest := by
  cases rest with
  | nil => rw [marks, marks]
  | cons second rest => rw [marks, alone second rfl]

theorem ending_single (alone : ∀ second ∈ rest.head?, pair role first second = none) :
    ending role (first :: rest) = ending (single role first).2 rest := by
  cases rest with
  | nil => rw [ending, ending]
  | cons second rest => rw [ending, alone second rfl]

/-! ## States and roles -/

/-- The role of the bytes that come next. -/
def context : State → Role
  | .code | .slash => .code
  | .string | .stringEscape => .string
  | .char | .charEscape => .char
  | .lineComment => .line
  | .blockComment | .blockAster | .blockNewline => .block

/-- The byte that may be the first one of a pair. -/
def pending : State → Bytes
  | .slash => [slash]
  | .stringEscape | .charEscape => [backslash]
  | .blockAster => [aster]
  | _ => []

/-- The pending byte, when it was given out already. -/
def early : State → Bytes
  | .stringEscape | .charEscape => [backslash]
  | _ => []

/-- The marks that are not settled. -/
def remaining (state : State) (word : Bytes) : List (Byte × Role) :=
  marks (context state) (pending state ++ word)

/-- What one byte settles. -/
structure Step (state : State) (byte : Byte) (rest : Bytes) (settled : List (Byte × Role)) : Prop where
  settles : machine.Settles remaining shown early state byte rest settled
  ends : ending (context state) (pending state ++ byte :: rest) =
    ending (context (next state byte)) (pending (next state byte) ++ rest)
  apart : settled.IsChain Apart
  last : settled.getLast? ≠ some (slash, .code)

/-- A byte that is held back. -/
theorem step_hold (state' : State) (eq : next state byte = state') (free : pending state = [])
    (held : pending state' = [byte])
    (same : context state' = context state)
    (given : early state ++ (output state state').bytes byte = early state') :
    Step state byte rest [] where
  settles := by
    refine ⟨?_, ?_⟩
    · simp only [remaining, machine, eq, free, held, same, List.nil_append, List.singleton_append]
    · simp only [machine, eq, given, List.flatMap_nil, List.nil_append]
  ends := by simp only [eq, free, held, same, List.nil_append, List.singleton_append]
  apart := .nil
  last := by simp

/-- A byte on its own. -/
theorem step_single (state' : State) (eq : next state byte = state') (free : pending state = [])
    (done : pending state' = [])
    (alone : ∀ second, pair (context state) byte second = none)
    (own : single (context state) byte = (role, context state'))
    (given : early state ++ (output state state').bytes byte = shown (byte, role) ++ early state')
    (other : (byte, role) ≠ (slash, .code)) :
    Step state byte rest [(byte, role)] where
  settles := by
    refine ⟨?_, ?_⟩
    · simp only [remaining, machine, eq, free, done, List.nil_append]
      rw [marks_single fun second _ => alone second, own]
      rfl
    · simp only [machine, eq, given, List.flatMap_cons, List.flatMap_nil, List.append_nil]
  ends := by
    simp only [eq, free, done, List.nil_append]
    rw [ending_single fun second _ => alone second, own]
  apart := .singleton _
  last := by simpa using other

/-- A byte that makes a pair with the one before it. -/
theorem step_pair (state' : State) {role : Role} (eq : next state byte = state')
    (held : pending state = [first])
    (done : pending state' = []) (paired : pair (context state) first byte = some (role, context state'))
    (given : early state ++ (output state state').bytes byte =
      shown (first, role) ++ shown (byte, role) ++ early state')
    (other : role ≠ .code) : Step state byte rest [(first, role), (byte, role)] where
  settles := by
    refine ⟨?_, ?_⟩
    · simp only [remaining, machine, eq, held, done, List.singleton_append, List.nil_append]
      rw [marks_pair paired]
      rfl
    · simp only [machine, eq, given, List.flatMap_cons, List.flatMap_nil, List.append_nil]
  ends := by
    simp only [eq, held, done, List.singleton_append, List.nil_append]
    rw [ending_pair paired]
  apart := by simp [Apart, other]
  last := by simp [other]

/-- A byte that leaves the one before it on its own. -/
theorem step_both (state' : State) {role : Role} (eq : next state byte = state')
    (held : pending state = [first])
    (done : pending state' = []) (unpaired : pair (context state) first byte = none)
    (before : single (context state) first = (role, context state))
    (alone : ∀ second, pair (context state) byte second = none)
    (after : single (context state) byte = (role, context state'))
    (given : early state ++ (output state state').bytes byte =
      shown (first, role) ++ shown (byte, role) ++ early state')
    (plain : ¬role.IsLiteral) (other : (byte, role) ≠ (slash, .code)) :
    Step state byte rest [(first, role), (byte, role)] where
  settles := by
    refine ⟨?_, ?_⟩
    · simp only [remaining, machine, eq, held, done, List.singleton_append, List.nil_append]
      rw [marks_single (by simpa using unpaired), before, marks_single fun second _ => alone second,
        after]
      rfl
    · simp only [machine, eq, given, List.flatMap_cons, List.flatMap_nil, List.append_nil]
  ends := by
    simp only [eq, held, done, List.singleton_append, List.nil_append]
    rw [ending_single (by simpa using unpaired), before, ending_single fun second _ => alone second,
      after]
  apart := by simp [Apart, plain]
  last := by simpa using other

/-! ## The steps of the machine -/

theorem step_code (byte : Byte) (rest : Bytes) : ∃ settled, Step .code byte rest settled := by
  by_cases comment : byte = slash
  · subst comment
    exact ⟨_, step_hold .slash rfl rfl rfl rfl rfl⟩
  have alone : ∀ second, pair .code byte second = none := fun second => by simp [pair, comment]
  by_cases string : byte = quote
  · subst string
    exact ⟨_, step_single .string rfl rfl rfl alone rfl rfl (by decide)⟩
  by_cases char : byte = apostrophe
  · subst char
    exact ⟨_, step_single .char rfl rfl rfl alone rfl rfl (by decide)⟩
  have eq : next .code byte = .code := by
    simp [next, transitions, List.lookup_cons, List.lookup_nil, beq_false_of_ne comment,
      beq_false_of_ne string, beq_false_of_ne char]
  exact ⟨_, step_single .code eq rfl rfl alone (by simp [context, single, string, char]; rfl) rfl
    (by simp [comment])⟩

/-- A slash that is held back, and not in front of a literal. -/
theorem step_slash (byte : Byte) (rest : Bytes) (string : byte ≠ quote) (char : byte ≠ apostrophe) :
    ∃ settled, Step .slash byte rest settled := by
  by_cases line : byte = slash
  · subst line
    exact ⟨_, step_pair .lineComment rfl rfl rfl rfl rfl (by decide)⟩
  by_cases block : byte = aster
  · subst block
    exact ⟨_, step_pair .blockComment rfl rfl rfl rfl rfl (by decide)⟩
  have eq : next .slash byte = .code := by
    simp [next, transitions, List.lookup_cons, List.lookup_nil, beq_false_of_ne line,
      beq_false_of_ne block]
  exact ⟨_, step_both .code eq rfl rfl (by simp [context, pair, line, block]) rfl (fun second =>
    by simp [context, pair, line])
    (by simp [context, single, string, char]) rfl (by decide) (by simp [line])⟩

theorem step_string (byte : Byte) (rest : Bytes) : ∃ settled, Step .string byte rest settled := by
  by_cases escape : byte = backslash
  · subst escape
    exact ⟨_, step_hold .stringEscape rfl rfl rfl rfl rfl⟩
  have alone : ∀ second, pair .string byte second = none := fun second => by simp [pair, escape]
  by_cases closing : byte = quote
  · subst closing
    exact ⟨_, step_single .code rfl rfl rfl alone rfl rfl (by decide)⟩
  have eq : next .string byte = .string := by
    simp [next, transitions, List.lookup_cons, List.lookup_nil, beq_false_of_ne closing,
      beq_false_of_ne escape]
  exact ⟨_, step_single .string eq rfl rfl alone (by simp [context, single, closing]; rfl) rfl (by simp)⟩

theorem step_char (byte : Byte) (rest : Bytes) : ∃ settled, Step .char byte rest settled := by
  by_cases escape : byte = backslash
  · subst escape
    exact ⟨_, step_hold .charEscape rfl rfl rfl rfl rfl⟩
  have alone : ∀ second, pair .char byte second = none := fun second => by simp [pair, escape]
  by_cases closing : byte = apostrophe
  · subst closing
    exact ⟨_, step_single .code rfl rfl rfl alone rfl rfl (by decide)⟩
  have eq : next .char byte = .char := by
    simp [next, transitions, List.lookup_cons, List.lookup_nil, beq_false_of_ne closing,
      beq_false_of_ne escape]
  exact ⟨_, step_single .char eq rfl rfl alone (by simp [context, single, closing]; rfl) rfl (by simp)⟩

/-- What is escaped belongs to the literal. -/
theorem step_escape (byte : Byte) (rest : Bytes) :
    (∃ settled, Step .stringEscape byte rest settled) ∧ ∃ settled, Step .charEscape byte rest settled :=
  ⟨⟨_, step_pair .string rfl rfl rfl rfl rfl (by decide)⟩, _,
    step_pair .char rfl rfl rfl rfl rfl (by decide)⟩

theorem step_line (byte : Byte) (rest : Bytes) : ∃ settled, Step .lineComment byte rest settled := by
  by_cases closing : byte = newline
  · subst closing
    exact ⟨_, step_single .code rfl rfl rfl (fun _ => rfl) rfl rfl (by decide)⟩
  have eq : next .lineComment byte = .lineComment := by
    simp [next, transitions, List.lookup_cons, List.lookup_nil, beq_false_of_ne closing]
  exact ⟨_, step_single .lineComment eq rfl rfl (fun _ => rfl) (by simp [context, single, closing]; rfl)
    (by simp [shown, Role.IsComment, closing]; rfl) (by simp)⟩

/-- In a block comment, with or without a newline before. -/
theorem step_block (byte : Byte) (rest : Bytes) :
    (∃ settled, Step .blockComment byte rest settled) ∧
    ∃ settled, Step .blockNewline byte rest settled := by
  by_cases half : byte = aster
  · subst half
    exact ⟨⟨_, step_hold .blockAster rfl rfl rfl rfl rfl⟩, _, step_hold .blockAster rfl rfl rfl rfl rfl⟩
  have alone : ∀ second, pair .block byte second = none := fun second => by simp [pair, half]
  by_cases line : byte = newline
  · subst line
    exact ⟨⟨_, step_single .blockNewline rfl rfl rfl alone rfl rfl (by decide)⟩,
      _, step_single .blockNewline rfl rfl rfl alone rfl rfl (by decide)⟩
  have eq : next .blockComment byte = .blockComment ∧ next .blockNewline byte = .blockComment := by
    simp [next, transitions, List.lookup_cons, List.lookup_nil, beq_false_of_ne half,
      beq_false_of_ne line]
  have hidden : shown (byte, .block) = [] := by simp [shown, Role.IsComment, line]
  exact ⟨⟨_, step_single .blockComment eq.1 rfl rfl alone rfl (by rw [hidden]; rfl) (by simp)⟩,
    _, step_single .blockComment eq.2 rfl rfl alone rfl (by rw [hidden]; rfl) (by simp)⟩

theorem step_aster (byte : Byte) (rest : Bytes) : ∃ settled, Step .blockAster byte rest settled := by
  by_cases closing : byte = slash
  · subst closing
    exact ⟨_, step_pair .code rfl rfl rfl rfl rfl (by decide)⟩
  by_cases again : byte = aster
  · subst again
    -- the first of two asterisks is settled, the second one is held back
    have unpaired : ∀ second ∈ (aster :: rest).head?, pair .block aster second = none :=
      by simp [pair, aster, slash]
    exact ⟨[(aster, .block)], ⟨marks_single unpaired, rfl⟩, ending_single unpaired,
      .singleton _, by decide⟩
  have unpaired : pair .block aster byte = none := by simp [pair, closing]
  have alone : ∀ second, pair .block byte second = none := fun second => by simp [pair, again]
  by_cases line : byte = newline
  · subst line
    exact ⟨_, step_both .blockNewline rfl rfl rfl unpaired rfl alone rfl rfl (by decide) (by decide)⟩
  have eq : next .blockAster byte = .blockComment := by
    simp [next, transitions, List.lookup_cons, List.lookup_nil, beq_false_of_ne closing,
      beq_false_of_ne again, beq_false_of_ne line]
  have hidden : shown (byte, .block) = [] := by simp [shown, Role.IsComment, line]
  exact ⟨_, step_both .blockComment eq rfl rfl unpaired rfl alone rfl (by rw [hidden]; rfl)
    (by decide) (by simp)⟩

/-- Every step is understood, unless a slash stands in front of a literal. -/
theorem step_of_apart (byte : Byte) (rest : Bytes)
    (fine : state = .slash → byte ≠ quote ∧ byte ≠ apostrophe) :
    ∃ settled, Step state byte rest settled := by
  cases state with
  | code => exact step_code byte rest
  | string => exact step_string byte rest
  | stringEscape => exact (step_escape byte rest).1
  | char => exact step_char byte rest
  | charEscape => exact (step_escape byte rest).2
  | slash => exact step_slash byte rest (fine rfl).1 (fine rfl).2
  | lineComment => exact step_line byte rest
  | blockComment => exact (step_block byte rest).1
  | blockAster => exact step_aster byte rest
  | blockNewline => exact (step_block byte rest).2

/-- A slash in front of a literal is seen in the marks. -/
theorem remaining_quoted (rest : Bytes) (literal : byte = quote ∨ byte = apostrophe) :
    ¬(remaining .slash (byte :: rest)).IsChain Apart ∧ (ending .code (slash :: [byte])).IsLiteral ∧
    next .slash byte = .code := by
  have first : pair .code slash byte = none := by rcases literal with rfl | rfl <;> rfl
  have alone : ∀ second, pair .code byte second = none :=
    by rcases literal with rfl | rfl <;> exact fun _ => rfl
  have role : (single .code byte).1.IsLiteral ∧ (single .code byte).2.IsLiteral := by
    rcases literal with rfl | rfl <;> exact ⟨by decide, by decide⟩
  refine ⟨fun chain => ?_, ?_, ?_⟩
  · rw [remaining, context, pending, List.singleton_append, marks_single (by simpa using first),
      show single .code slash = (.code, .code) from rfl, marks_single fun second _ =>
      alone second] at chain
    exact (List.isChain_cons_cons.mp chain).1 rfl role.1
  · rw [ending_single (by simpa using first), ending]
    exact role.2
  · rcases literal with rfl | rfl <;> rfl

/-- What a step settles says nothing against the rest. -/
theorem Step.chain_iff {settled : List (Byte × Role)} (step : Step state byte rest settled) :
    (remaining state (byte :: rest)).IsChain Apart ↔
    (remaining (next state byte) rest).IsChain Apart := by
  rw [step.settles.1, List.isChain_append]
  refine ⟨fun chain => chain.2.1, fun chain => ⟨step.apart, chain, fun mark last other _ slash => ?_⟩⟩
  rw [slash] at last
  exact absurd last step.last

theorem step_of_chain (fine : (remaining state (byte :: rest)).IsChain Apart) :
    ∃ settled, Step state byte rest settled := by
  refine step_of_apart byte rest ?_
  rintro rfl
  exact ⟨fun string => (remaining_quoted _ (.inl string)).1 fine,
    fun char => (remaining_quoted _ (.inr char)).1 fine⟩

/-! ## Runs of the machine -/

/-- The marks of a text that are settled before its end. -/
theorem run_settles (state : State) (fine : (remaining state text).IsChain Apart) :
    ∃ settled, remaining state text = settled ++ remaining (machine.after state text) [] ∧
      early state ++ machine.run state text =
        settled.flatMap shown ++ early (machine.after state text) := by
  refine Transducer.settled (fun state byte rest fine => ?_) fine
  obtain ⟨settled, step⟩ := step_of_chain fine
  exact ⟨⟨settled, step.settles⟩, step.chain_iff.mp fine⟩

/-- The machine knows the role that a text ends in. -/
theorem run_ends (state : State) (fine : (remaining state text).IsChain Apart) :
    ending (context state) (pending state ++ text) = context (machine.after state text) := by
  induction text generalizing state with
  | nil => cases state <;> rfl
  | cons byte rest ih =>
    obtain ⟨settled, step⟩ := step_of_chain fine
    rw [step.ends, ih _ (step.chain_iff.mp fine)]
    rfl

/-- What is shown of a text is given out, but a slash at the end. -/
theorem run_shows (fine : (marks .code text).IsChain Apart) :
    (marks .code text).flatMap shown = machine.run .code text ++ if machine.after .code text =
      .slash then [slash] else [] := by
  obtain ⟨settled, eq, given⟩ := run_settles .code fine
  change marks .code text = _ at eq
  change machine.run .code text = _ at given
  rw [eq, given, List.flatMap_append, List.append_assoc]
  congr 1
  cases machine.after .code text <;> rfl

/-- The machine ends behind a slash exactly if the text does. -/
theorem after_slash_iff (state : State) (fine : (remaining state text).IsChain Apart) :
    machine.after state text = .slash ↔ (remaining state text).getLast? = some (slash, .code) := by
  induction text generalizing state with
  | nil => cases state <;> decide
  | cons byte rest ih =>
    obtain ⟨settled, step⟩ := step_of_chain fine
    rw [Transducer.after_cons, show machine.next = next from rfl, ih _ (step.chain_iff.mp fine),
      step.settles.1,
      show machine.next = next from rfl, List.getLast?_append, Option.or_eq_some_iff]
    exact ⟨.inl, fun either => either.resolve_right fun other => step.last other.2⟩

/-- A slash in front of a literal: the machine takes the first byte of the literal for code. -/
theorem mistaken (state : State) (wrong : ¬(remaining state text).IsChain Apart) :
    ∃ front behind, text = front ++ behind ∧
    (ending (context state) (pending state ++ front)).IsLiteral ∧ machine.after state front = .code := by
  induction text generalizing state with
  | nil => cases state <;> exact absurd (by simp [remaining, pending, context, marks]) wrong
  | cons byte rest ih =>
    by_cases fine : state = .slash → byte ≠ quote ∧ byte ≠ apostrophe
    · obtain ⟨settled, step⟩ := step_of_apart byte rest fine
      obtain ⟨front, behind, rfl, literal, code⟩ := ih _ (fun chain => wrong (step.chain_iff.mpr chain))
      obtain ⟨_, other⟩ := step_of_apart byte front fine
      exact ⟨byte :: front, behind, rfl, by rwa [other.ends], code⟩
    · rw [Classical.not_imp, Classical.not_and_iff_not_or_not, Classical.not_not,
        Classical.not_not] at fine
      obtain ⟨rfl, quoted⟩ := fine
      obtain ⟨-, literal, code⟩ := remaining_quoted rest quoted
      exact ⟨[byte], rest, rfl, literal, code⟩

/-! ## The function -/

theorem marks_fst (role : Role) (text : Bytes) : (marks role text).map Prod.fst = text := by
  fun_induction marks role text with
  | case1 => rfl
  | case2 => rfl
  | case3 role first second rest inside behind paired ih => rw [List.map_cons, List.map_cons, ih]
  | case4 role first second rest unpaired ih => rw [List.map_cons, ih]

/-- Every newline is shown. -/
theorem count_shown (l : List (Byte × Role)) :
    (l.flatMap shown).count newline = (l.map Prod.fst).count newline := by
  induction l with
  | nil => rfl
  | cons mark rest ih =>
    rw [List.flatMap_cons, List.count_append, ih, List.map_cons, List.count_cons, Nat.add_comm]
    congr 1
    unfold shown
    by_cases line : mark.1 = newline
    · simp [line]
    · split <;> simp [line]

theorem finalError_isSome (state : State) :
    (finalError state).isSome ↔ (context state).IsLiteral ∨ context state = .block := by
  cases state <;> decide

theorem inLiteral_iff (state : State) : InLiteral state ↔ (context state).IsLiteral := by
  cases state <;> simp [InLiteral, context, Role.IsLiteral]

/-- The marks of a prefix of a fine text are fine. -/
theorem chain_front (state : State) {front behind : Bytes}
    (fine : (remaining state (front ++ behind)).IsChain Apart) :
    (remaining state front).IsChain Apart := by
  induction front generalizing state with
  | nil => cases state <;> simp [remaining, pending, context, marks]
  | cons byte rest ih =>
    have plain : state = .slash → byte ≠ quote ∧ byte ≠ apostrophe := by
      rintro rfl
      exact ⟨fun string => (remaining_quoted _ (.inl string)).1 fine,
        fun char => (remaining_quoted _ (.inr char)).1 fine⟩
    obtain ⟨_, step⟩ := step_of_apart byte (rest ++ behind) plain
    obtain ⟨_, shorter⟩ := step_of_apart byte rest plain
    exact shorter.chain_iff.mpr (ih _ (step.chain_iff.mp fine))

theorem closed_iff : Closed text ↔ ¬((ending .code text).IsLiteral ∨ ending .code text = .block) := by
  rw [Closed, not_or]

/-- The function follows the lexing of C exactly for the texts in which every slash of the code
has a byte behind it that is not in a literal. -/
theorem follows_iff (text : Bytes) : Follows text ↔ Clean text := by
  constructor
  · intro follows
    have fine : (marks .code text).IsChain Apart := by
      by_contra wrong
      obtain ⟨front, behind, rfl, literal, code⟩ := mistaken .code wrong
      have known := follows.literals front behind rfl literal
      rw [code] at known
      simp [InLiteral] at known
    refine ⟨fine, fun last => ?_⟩
    have held := (after_slash_iff .code fine).mpr last
    have ends : ending .code text = .code := by
      have role := run_ends .code fine
      rwa [held] at role
    have output := follows.output ⟨by rw [ends]; decide, by rw [ends]; decide⟩
    have shows := run_shows fine
    rw [if_pos held, ← output] at shows
    exact absurd (congrArg List.length shows) (by simp [stripComments])
  · intro clean
    have ends : ending .code text = context (machine.after .code text) := run_ends .code clean.apart
    have whole : machine.after .code text ≠ .slash :=
      fun slash => clean.last ((after_slash_iff .code clean.apart).mp slash)
    have output : (stripComments text true).1 = (marks .code text).flatMap shown := by
      rw [run_shows clean.apart, if_neg whole, List.append_nil]
      rfl
    exact {
      output := fun _ => output
      newlines := fun _ => by rw [output, count_shown, marks_fst]
      literals := by
        rintro front behind rfl literal
        rw [inLiteral_iff, ← run_ends .code (chain_front .code clean.apart)]
        exact literal
      raises := by
        rw [closed_iff, Classical.not_not, ends]
        exact finalError_isSome _ }

/-- A comment token in a string behind a slash is removed. -/
theorem string_cut : ¬∀ text, Follows text := by
  intro all
  have output := (all [slash, quote, slash, slash, quote]).output (by decide)
  exact absurd output (by decide)

end Adbi.StripCommentsProofs
