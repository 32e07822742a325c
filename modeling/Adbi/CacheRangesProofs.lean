import Adbi.CacheRanges
import Adbi.Lib.Runs

/-! Which ranges keep their place and their length when they become offsets in the file.
Each end is looked up by itself, in the first allocated section that it touches. -/
namespace Adbi.CacheRangesProofs
open Adbi.Lib Adbi.CacheRanges

variable {sections : List Section} {s : Section} {low high : Nat}

/-! ## The translation -/

/-- The range lies in an allocated section, up to its end. -/
structure Inside (sections : List Section) (s : Section) (low high : Nat) : Prop where
  member : s ∈ sections
  allocated : s.allocated = true
  nonempty : low < high
  above : s.addr ≤ low
  below : high ≤ s.addr + s.size

/-- The offset in the file of an address of the section. -/
def fo (s : Section) (addr : Nat) : Nat := s.offset + (addr - s.addr)

/-- The range that there should be. -/
def image (s : Section) (low high : Nat) : Nat × Nat := (fo s low, fo s low + (high - low))

/-- The first allocated section that an address touches. -/
def First (sections : List Section) (addr : Nat) (t : Section) : Prop :=
  ∃ before after, sections = before ++ t :: after ∧ t.allocated = true ∧ t.touches addr = true ∧
    ∀ u ∈ before, u.allocated = true → u.touches addr = false

/-- Both ends are found in sections that are shifted as this one is. -/
def Settled (sections : List Section) (s : Section) (low high : Nat) : Prop :=
  ∀ addr, addr = low ∨ addr = high → ∀ t, First sections addr t → t.offset + s.addr = s.offset + t.addr

theorem addr2fo_cons (t : Section) (rest : List Section) (addr : Nat) :
    addr2fo (t :: rest) addr = if t.allocated = true ∧ t.touches addr = true then some (fo t addr)
      else addr2fo rest addr := by
  unfold addr2fo
  by_cases allocated : t.allocated = true
  · rw [List.filter_cons_of_pos allocated, List.find?_cons]
    by_cases touches : t.touches addr = true
    · rw [if_pos ⟨allocated, touches⟩, touches]
      rfl
    · rw [if_neg fun both => touches both.2, show t.touches addr = false by simpa using touches]
  · rw [List.filter_cons_of_neg allocated, if_neg fun both => allocated both.1]

/-- An address that some allocated section has is found in the first one that it touches. -/
theorem addr2fo_first {addr : Nat} (member : s ∈ sections) (allocated : s.allocated = true)
    (touches : s.touches addr = true) :
    ∃ t, First sections addr t ∧ addr2fo sections addr = some (fo t addr) := by
  induction sections with
  | nil => cases member
  | cons u rest ih =>
    rw [addr2fo_cons]
    by_cases here : u.allocated = true ∧ u.touches addr = true
    · rw [if_pos here]
      exact ⟨u, ⟨[], rest, rfl, here.1, here.2, fun _ none => by cases none⟩, rfl⟩
    · rw [if_neg here]
      have later : s ∈ rest := by
        rcases List.mem_cons.mp member with rfl | later
        · exact absurd ⟨allocated, touches⟩ here
        · exact later
      obtain ⟨t, ⟨before, after, rfl, first⟩, found⟩ := ih later
      refine ⟨t, ⟨u :: before, after, rfl, first.1, first.2.1, fun v member allocated => ?_⟩, found⟩
      rcases List.mem_cons.mp member with rfl | earlier
      · exact Bool.not_eq_true _ ▸ fun touches => here ⟨allocated, touches⟩
      · exact first.2.2 v earlier allocated

theorem addr2fo_settled {addr : Nat} (member : s ∈ sections) (allocated : s.allocated = true)
    (above : s.addr ≤ addr)
    (below : addr ≤ s.addr + s.size)
    (settled : ∀ t, First sections addr t → t.offset + s.addr = s.offset + t.addr) :
    addr2fo sections addr = some (fo s addr) := by
  obtain ⟨t, first, found⟩ := addr2fo_first member allocated (show s.touches addr =
    true by simp [Section.touches, above, below])
  have touches := first
  obtain ⟨-, -, -, -, touches, -⟩ := touches
  have shifted := settled t first
  rw [found, fo, fo]
  simp only [Section.touches, Bool.and_eq_true, decide_eq_true_eq] at touches
  congr 1
  omega

theorem translate_settled (inside : Inside sections s low high) (settled : Settled sections s low high) :
    translate sections (low, high) = some (image s low high) := by
  have nonempty := inside.nonempty
  have above := inside.above
  have below := inside.below
  have start := addr2fo_settled inside.member inside.allocated above (by omega) (settled low (.inl rfl))
  have stop := addr2fo_settled inside.member inside.allocated (by omega) below (settled high (.inr rfl))
  rw [CacheRanges.translate, start, stop]
  show some (fo s low, fo s high) = _
  rw [image, fo, fo]
  congr 2
  omega

/-! ## Where ranges are kept -/

/-- The variable of a DIE stands among the others, with the range at its place. -/
def VariableRangesKept (sections : List Section) (s : Section) (low high : Nat)
    (die : VariableDie) : Prop :=
  ∀ vid earlier later before after, die.ranges = before ++ (low, high) :: after →
    ∃ v, variablesInit sections vid (earlier ++ die :: later) =
        variablesInit sections vid earlier ++ (die.offset, v) :: variablesInit sections
          (vid + earlier.length + 1) later ∧
      v.ranges = iterVarRanges sections before ++ image s low high :: iterVarRanges sections after

def VariableExpressionsKept (sections : List Section) (s : Section) (low high : Nat)
    (die : VariableDie) : Prop :=
  ∀ vid earlier later before after expr, die.expressions = before ++ ⟨some (low, high), expr⟩ :: after →
    ∃ v, variablesInit sections vid (earlier ++ die :: later) =
        variablesInit sections vid earlier ++ (die.offset, v) :: variablesInit sections
          (vid + earlier.length + 1) later ∧
      v.expressions =
        iterVarExpressions sections before ++ ⟨some (image s low high), expr⟩ :: iterVarExpressions
          sections after

/-- The entry of a row stands among the others. -/
def CallFramesKept (sections : List Section) (s : Section) (low high : Nat) : Prop :=
  ∀ (earlier later : List Fde) (fde : Fde) (rows : List (Nat × CfaRule)) (rule : CfaRule)
    (rest : List (Nat × CfaRule)),
    fde.table = rows ++ (low, rule) :: rest → nextPc rest fde.high = high →
    iterEntries sections (earlier ++ fde :: later) = do
      let others ← iterEntries sections earlier
      let before ← fdeEntries sections low rows
      let expr ← cfaExpr rule
      let after ← fdeEntries sections fde.high rest
      let more ← iterEntries sections later
      pure (others ++ (before ++ ⟨(image s low high).1, (image s low high).2, expr⟩ :: after) ++ more)

/-- Where a function ends. -/
def stopOf (die : FunctionDie) (low : Nat) : Option Nat :=
  die.highPc.map fun form => if form.1 then form.2 + low else form.2

/-- The function of a DIE stands among the others, with its bounds. -/
def FunctionKept (sections : List Section) (s : Section) (low high : Nat)
    (offset2var : List (Nat × Variable))
    (die : FunctionDie) : Prop :=
  die.lowPc = some low → stopOf die low = some high → ∀ id earlier later,
    ∃ params, die.params.mapM (getByDIE offset2var) = some params ∧
      iterFunctions sections offset2var id (earlier ++ die :: later) = do
        let before ← iterFunctions sections offset2var id earlier
        let after ← iterFunctions sections offset2var (id + before.length + 1) later
        pure (before ++ ⟨id + before.length, nameOf die.name, (image s low high).1, (image s low high).2,
          iterFp sections die.frameBase, params⟩ :: after)

/-- An expression of a frame base stands among the others. -/
def FrameBaseKept (sections : List Section) (s : Section) (low high : Nat) : Prop :=
  ∀ before after expr, iterFp sections (before ++ ⟨some (low, high), expr⟩ :: after) =
    iterFp sections before ++ ⟨some (image s low high), expr⟩ :: iterFp sections after

theorem iterVarRanges_append (before after : List (Nat × Nat)) :
    iterVarRanges sections (before ++ after) = iterVarRanges sections before ++
      iterVarRanges sections after :=
  List.filterMap_append

theorem translateExpressions_split {range : Nat × Nat}
    (found : translate sections (low, high) = some range)
    (before after : List Expression) (expr : Bytes) :
    translateExpressions sections (before ++ ⟨some (low, high), expr⟩ :: after) =
      translateExpressions sections before ++ ⟨some range, expr⟩ :: translateExpressions
        sections after := by
  rw [translateExpressions, List.filterMap_append, List.filterMap_cons_some]
  · rfl
  · show (translate sections (low, high)).map _ = _
    rw [found]
    rfl

theorem variablesInit_split (vid : Nat) (earlier later : List VariableDie) {die : VariableDie}
    {v : Nat → Variable}
    (init : ∀ vid, variableInit sections vid die = some (v vid)) :
    variablesInit sections vid (earlier ++ die :: later) =
      variablesInit sections vid earlier ++
        (die.offset, v (vid + earlier.length)) :: variablesInit sections
          (vid + earlier.length + 1) later := by
  induction earlier generalizing vid with
  | nil =>
    rw [List.nil_append, variablesInit]
    simp only [init, variablesInit, List.nil_append, List.length_nil, Nat.add_zero]
  | cons other rest ih =>
    have count : vid + 1 + rest.length = vid + (other :: rest).length := by
      rw [List.length_cons]
      omega
    rw [List.cons_append, variablesInit, variablesInit]
    cases variableInit sections vid other with
    | none => rw [ih, count]
    | some w =>
      simp only
      rw [ih, count, List.cons_append]

theorem fdeEntries_split {entryLow entryHigh stop : Nat} {rule : CfaRule} {rest : List (Nat × CfaRule)}
    (rows : List (Nat × CfaRule))
    (found : translate sections (low, nextPc rest stop) = some (entryLow, entryHigh)) :
    fdeEntries sections stop (rows ++ (low, rule) :: rest) = (do
      let before ← fdeEntries sections low rows
      let expr ← cfaExpr rule
      let after ← fdeEntries sections stop rest
      pure (before ++ ⟨entryLow, entryHigh, expr⟩ :: after)) := by
  induction rows with
  | nil =>
    simp only [List.nil_append, fdeEntries, found, ok_bind]
  | cons row rows ih =>
    obtain ⟨pc, other⟩ := row
    have next : nextPc (rows ++ (low, rule) :: rest) stop = nextPc rows low := by
      cases rows with
      | nil => rfl
      | cons row rows => rfl
    rw [List.cons_append, fdeEntries, next, fdeEntries]
    cases translate sections (pc, nextPc rows low) with
    | none => exact ih
    | some range =>
      simp only [ih, bind_assoc, pure_bind, List.cons_append]

theorem iterEntries_split (earlier later : List Fde) (fde : Fde) :
    iterEntries sections (earlier ++ fde :: later) = (do
      let others ← iterEntries sections earlier
      let entries ← fdeEntries sections fde.high fde.table
      let more ← iterEntries sections later
      pure (others ++ entries ++ more)) := by
  induction earlier with
  | nil =>
    rw [List.nil_append, iterEntries, iterEntries, ok_bind]
    rfl
  | cons first rest ih =>
    rw [List.cons_append, iterEntries, ih, iterEntries]
    simp only [bind_assoc, pure_bind, List.append_assoc]

theorem iterFunctions_split {offset2var : List (Nat × Variable)} (id : Nat)
    (earlier later : List FunctionDie) {die : FunctionDie}
    {f : Nat → Function} (here : ∀ id, functionOf sections offset2var id die = .ok (some (f id))) :
    iterFunctions sections offset2var id (earlier ++ die :: later) = (do
      let before ← iterFunctions sections offset2var id earlier
      let after ← iterFunctions sections offset2var (id + before.length + 1) later
      pure (before ++ f (id + before.length) :: after)) := by
  induction earlier generalizing id with
  | nil =>
    simp only [List.nil_append, iterFunctions, here, ok_bind, List.length_nil, Nat.add_zero]
  | cons first rest ih =>
    rw [List.cons_append, iterFunctions, iterFunctions]
    simp only [bind_assoc]
    congr 1
    funext found
    cases found with
    | none => exact ih id
    | some g =>
      simp only [ih, bind_assoc, pure_bind, List.length_cons]
      congr 1
      funext before
      have count : id + 1 + before.length = id + (before.length + 1) := by omega
      rw [count]
      rfl

/-! ## What is kept -/

/-- The variable has a type, and a name if it needs one. -/
def Accepted (die : VariableDie) : Prop :=
  die.typeId.isSome ∧ (die.name.isSome ∨ die.inSubprogram = true)

theorem variableInit_accepted (sections : List Section) {die : VariableDie}
    (accepted : Accepted die) : ∃ v : Nat → Variable, ∀ vid,
    variableInit sections vid die = some (v vid) ∧
    (v vid).expressions = iterVarExpressions sections die.expressions ∧
      (v vid).ranges = if iterVarExpressions sections die.expressions = [] then []
        else iterVarRanges sections die.ranges := by
  obtain ⟨typed, named⟩ := accepted
  obtain ⟨typeId, isType⟩ := Option.isSome_iff_exists.mp typed
  have passes : ¬(die.name.isNone && !die.inSubprogram) = true := by
    rcases named with named | inside
    · simp [Option.isNone_iff_eq_none, Option.isSome_iff_ne_none.mp named]
    · simp [inside]
  refine ⟨fun vid => ⟨vid, die.name, typeId, die.external, _, _⟩, fun vid => ⟨?_, rfl, rfl⟩⟩
  rw [variableInit, isType]
  exact if_neg passes

private theorem ranges_kept (found : translate sections (low, high) = some (image s low high))
    {die : VariableDie}
    (accepted : Accepted die) (located : iterVarExpressions sections die.expressions ≠ []) :
    VariableRangesKept sections s low high die := by
  intro vid earlier later before after isRanges
  obtain ⟨v, init⟩ := variableInit_accepted sections accepted
  refine ⟨v (vid + earlier.length), variablesInit_split vid earlier later fun vid => (init vid).1, ?_⟩
  rw [(init _).2.2, if_neg located, isRanges, iterVarRanges_append]
  exact congrArg _ (List.filterMap_cons_some found)

private theorem expressions_kept (found : translate sections (low, high) = some (image s low high))
    {die : VariableDie}
    (accepted : Accepted die) : VariableExpressionsKept sections s low high die := by
  intro vid earlier later before after expr isExpressions
  obtain ⟨v, init⟩ := variableInit_accepted sections accepted
  refine ⟨v (vid + earlier.length), variablesInit_split vid earlier later fun vid => (init vid).1, ?_⟩
  rw [(init _).2.1, isExpressions]
  exact translateExpressions_split found before after expr

private theorem call_frames_kept (found : translate sections (low, high) = some (image s low high)) :
    CallFramesKept sections s low high := by
  intro earlier later fde rows rule rest isTable next
  have here : translate sections (low, nextPc rest fde.high) =
      some ((image s low high).1, (image s low high).2) := by
    rw [next, found]
  rw [iterEntries_split, isTable, fdeEntries_split rows here]
  simp only [bind_assoc, pure_bind]

private theorem params_known {offset2var : List (Nat × Variable)} {offsets : List Nat}
    (known : ∀ p ∈ offsets, (getByDIE offset2var p).isSome) :
    ∃ params, offsets.mapM (getByDIE offset2var) = some params := by
  induction offsets with
  | nil => exact ⟨[], rfl⟩
  | cons p rest ih =>
    obtain ⟨v, found⟩ := Option.isSome_iff_exists.mp (known p List.mem_cons_self)
    obtain ⟨params, others⟩ := ih fun q member => known q (List.mem_cons_of_mem p member)
    rw [List.mapM_cons, found, others]
    exact ⟨v :: params, rfl⟩

private theorem function_kept (found : translate sections (low, high) = some (image s low high))
    (nonzero : low ≠ 0)
    {offset2var : List (Nat × Variable)} {die : FunctionDie}
    (known : ∀ p ∈ die.params, (getByDIE offset2var p).isSome) :
    FunctionKept sections s low high offset2var die := by
  intro isLow isHigh id earlier later
  obtain ⟨params, isParams⟩ := params_known known
  obtain ⟨⟨data, value⟩, isForm, isHigh⟩ := Option.map_eq_some_iff.mp isHigh
  refine ⟨params, isParams, iterFunctions_split (f :=
    fun id => ⟨id, nameOf die.name, (image s low high).1, (image s low high).2,
    iterFp sections die.frameBase, params⟩) id earlier later fun id => ?_⟩
  have isHigh : (if data = true then value + low else value) = high := isHigh
  simp only [functionOf, isLow, nonzero, ↓reduceIte, isForm, isParams, isHigh, found]

/-- The ranges of a section whose ends are found at the shift of the section keep their place and
their length, but for what the builder leaves out: the ranges of a variable without expressions,
a variable that is not accepted, a function at zero and one with a parameter that is no variable. -/
theorem ranges_translated (inside : Inside sections s low high) (settled : Settled sections s low high) :
    (∀ die, Accepted die → iterVarExpressions sections die.expressions ≠ [] →
      VariableRangesKept sections s low high die) ∧
    (∀ die, Accepted die → VariableExpressionsKept sections s low high die) ∧
    FrameBaseKept sections s low high ∧
    CallFramesKept sections s low high ∧
    (low ≠ 0 → ∀ offset2var die, (∀ p ∈ die.params, (getByDIE offset2var p).isSome) →
      FunctionKept sections s low high offset2var die) := by
  have found := translate_settled inside settled
  exact ⟨fun die accepted located => ranges_kept found accepted located,
    fun die accepted => expressions_kept found accepted,
    fun before after expr => translateExpressions_split found before after expr, call_frames_kept found,
    fun nonzero offset2var die known => function_kept found nonzero known⟩

/-- Code, from `0x1000` on. -/
private def code : Section := ⟨0x1000, 0x1000, 0x1000, 6⟩

/-- Data right behind the code, with a gap between them in the file. -/
private def data : Section := ⟨0x2000, 0x3000, 0x100, 3⟩

/-- A variable with a range in the code. -/
private def plain : VariableDie := ⟨0, some "x", some 0, false, false, [(0x1000, 0x1010)], []⟩

private theorem code_inside : Inside [code, data] code 0x1000 0x2000 :=
  ⟨by decide, by decide, by decide, by decide, by decide⟩

private theorem data_inside : Inside [code, data] data 0x2010 0x2100 :=
  ⟨by decide, by decide, by decide, by decide, by decide⟩

/-- Of two sections the second is found where the first one does not touch the address. -/
theorem first_of_two {a b t : Section} (first : First [a, b] addr t) :
    t = a ∧ a.touches addr = true ∨ t = b ∧ (a.allocated = true → a.touches addr = false) := by
  obtain ⟨before, after, eq, -, touches, none⟩ := first
  cases before with
  | nil =>
    cases eq
    exact .inl ⟨rfl, touches⟩
  | cons u before =>
    obtain ⟨rfl, rest⟩ := List.cons.inj eq
    refine .inr ⟨?_, none a List.mem_cons_self⟩
    cases before with
    | nil => exact (List.cons.inj rest).1.symm
    | cons v before => exact absurd (List.cons.inj rest).2 (by simp)

private theorem code_settled : Settled [code, data] code 0x1000 0x2000 := by
  intro addr ends t first
  rcases first_of_two first with ⟨rfl, -⟩ | ⟨-, untouched⟩
  · rfl
  · rcases ends with rfl | rfl
    · exact absurd (untouched (by decide)) (by decide)
    · exact absurd (untouched (by decide)) (by decide)

private theorem data_settled : Settled [code, data] data 0x2010 0x2100 := by
  intro addr ends t first
  rcases first_of_two first with ⟨-, touches⟩ | ⟨rfl, -⟩
  · rcases ends with rfl | rfl
    · exact absurd touches (by decide)
    · exact absurd touches (by decide)
  · rfl

/-- All of the code, to the end of its section where the data begins, and all of the data but its
start: the call frames and a function of the code, and the variables and frame bases of the data. -/
theorem code_translated :
    (CallFramesKept [code, data] code 0x1000 0x2000 ∧
      FunctionKept [code, data] code 0x1000 0x2000 [] ⟨some "f", some 0x1000,
        some (true, 0x1000), [], []⟩) ∧
    VariableRangesKept [code, data] data 0x2010 0x2100
      { plain with ranges := [(0x2010, 0x2100)], expressions := [⟨none, [0x91#8, 0x00#8]⟩] } ∧
    VariableExpressionsKept [code, data] data 0x2010 0x2100
      { plain with expressions := [⟨some (0x2010, 0x2100), []⟩] } ∧
    FrameBaseKept [code, data] data 0x2010 0x2100 := by
  obtain ⟨-, -, -, frames, functions⟩ := ranges_translated code_inside code_settled
  obtain ⟨ranges, expressions, bases, -⟩ := ranges_translated data_inside data_settled
  exact ⟨⟨frames, functions (by decide) [] _ (by simp)⟩, ranges _ ⟨rfl, .inl rfl⟩ (by decide),
    expressions _ ⟨rfl, .inl rfl⟩, bases⟩

/-- A range is lost of a variable that was optimized out, of one without a name, of a function at
zero and of one with an unknown parameter; and a range of the data is misplaced whose start is
where the code ends. -/
theorem ranges_lost :
    (Inside [code] code 0x1000 0x1010 ∧ ¬VariableRangesKept [code] code 0x1000 0x1010 plain) ∧
    ¬VariableExpressionsKept [code] code 0x1000 0x1010
      { plain with name := none, expressions := [⟨some (0x1000, 0x1010), []⟩] } ∧
    (Inside [{ code with addr := 0 }] { code with addr := 0 } 0 0x10 ∧
      ¬FunctionKept [{ code with addr := 0 }] { code with addr := 0 } 0 0x10 [] ⟨none, some 0,
        some (true, 0x10), [], []⟩) ∧
    ¬FunctionKept [code] code 0x1000 0x1010 [] ⟨none, some 0x1000, some (true, 0x10), [], [7]⟩ ∧
    (Inside [code, data] data 0x2000 0x2010 ∧ ¬FrameBaseKept [code, data] data 0x2000 0x2010) := by
  refine ⟨⟨⟨by decide, by decide, by decide, by decide, by decide⟩, fun kept => ?_⟩, fun kept => ?_,
    ⟨⟨by decide, by decide, by decide, by decide, by decide⟩, fun kept => ?_⟩, fun kept => ?_,
    ⟨by decide, by decide, by decide, by decide, by decide⟩, fun kept => ?_⟩
  · obtain ⟨v, isVariable, ranges⟩ := kept 0 [] [] [] [] rfl
    have none : variablesInit [code] 0 ([] ++ plain :: []) =
        [(0, ⟨0, some "x", 0, false, [], []⟩)] := rfl
    cases none.symm.trans isVariable
    cases ranges
  · obtain ⟨v, isVariable, -⟩ := kept 0 [] [] [] [] [] rfl
    cases isVariable
  · obtain ⟨params, -, isFunction⟩ := kept rfl rfl 0 [] []
    cases isFunction
  · obtain ⟨params, isParams, -⟩ := kept rfl rfl 0 [] []
    cases isParams
  · have misplaced := kept [] [] []
    revert misplaced
    decide

end Adbi.CacheRangesProofs
