import Adbi.A32Alu
import Adbi.ArmOolProofs
import Adbi.DpFillProofs

/-! The templates of `arch/arm` for data processing instructions do what the
instructions do at their own addresses, where no operand is the stack pointer that
they push to. -/
namespace Adbi.DpOolProofs
open Adbi.Lib Adbi.A32Alu
open Adbi.A32 hiding step runOol execArm
open Adbi.A64 (Flags condHolds)
open Adbi.TemplateSelect (Template templateSelectArm decodeArmDataproc)
open Adbi.ArmTemplate (Code templateGetHandler armCode)
open Adbi.ArmFillProofs Adbi.DpFillProofs Adbi.ArmOolProofs

/-! ## Instructions of the templates -/

section Steps

variable {s s' : State} {base w x : Word} {offset : Nat}

private theorem step_at (arm : s.thumb = false) (fetched : s.load (place base offset) = w) :
    step (s.goto (place base offset)) = execArm w (s.goto (place base offset)) := by
  simp only [step, goto_thumb, arm, goto_load, goto_pc, fetched, Bool.false_eq_true, ↓reduceIte]

private theorem leaves_at (arm : s.thumb = false) (fetched : s.load (place base offset) = w) :
    leaves (s.goto (place base offset)) =
      (wordMatches w "----010--0-1----1111------------" && condHolds (field w 28 4) s.flags ||
        isDataProcessing w && usesRd w && rd w == 15#4 && condHolds (field w 28 4) s.flags) := by
  simp only [leaves, loadsPc, goto_thumb, arm, goto_load, goto_pc, goto_flags, fetched,
    Bool.false_eq_true, ↓reduceIte, Bool.not_false,
    Bool.true_and]

private theorem run_on {u : State} (arm : s.thumb = false) (fetched : s.load (place base offset) = w)
    (loads : (wordMatches w "----010--0-1----1111------------" &&
      condHolds (field w 28 4) s.flags) = false)
    (computes : (isDataProcessing w && usesRd w && rd w == 15#4 &&
      condHolds (field w 28 4) s.flags) = false)
    (ok : execArm w (s.goto (place base offset)) = some u) (k : Nat) :
    runOol (k + 1) (s.goto (place base offset)) = runOol k u :=
  runUntil_on ((step_at arm fetched).trans ok)
    ((leaves_at arm fetched).trans (by rw [loads, computes]; rfl)) k

private theorem run_leave (arm : s.thumb = false) (fetched : s.load (place base offset) = w)
    (last : (wordMatches w "----010--0-1----1111------------" && condHolds (field w 28 4) s.flags ||
      isDataProcessing w && usesRd w && rd w == 15#4 && condHolds (field w 28 4) s.flags) = true)
      (k : Nat) :
    runOol (k + 1) (s.goto (place base offset)) = execArm w (s.goto (place base offset)) :=
  (runUntil_leave ((leaves_at arm fetched).trans last) k).trans (step_at arm fetched)

/-! ### Loads and stores -/

private theorem not_dataProcessing {p : Pattern} (has : wordMatches w p = true)
    (apart : conflict 32 p immediatePattern = true ∧ conflict 32 p immediateShiftPattern = true ∧
      conflict 32 p registerShiftPattern = true) :
    isDataProcessing w = false := by
  rw [isDataProcessing, not_matches_of_conflict has apart.1, not_matches_of_conflict has apart.2.1,
    not_matches_of_conflict has apart.2.2]
  rfl

private theorem execArm_access (has : wordMatches w loadStorePattern = true)
    (conditional : Conditional w) :
    execArm w s = if condHolds (field w 28 4) s.flags then execLoadStore w s else some (nextArm s) := by
  have other := not_dataProcessing has (by decide)
  rw [execArm, other, Bool.false_and, if_neg Bool.false_ne_true]
  exact execArm_class conditional has rfl

private theorem run_access {u : State} (has : wordMatches w loadStorePattern = true)
    (conditional : Conditional w) (arm : s.thumb = false)
    (fetched : s.load (place base offset) = w)
    (stays : wordMatches w "----010--0-1----1111------------" = false)
    (ok : condHolds (field w 28 4) s.flags = true → execLoadStore w (s.goto (place base offset)) =
      some (u.goto (place base (offset + 4))))
    (k : Nat) :
    runOol (k + 1) (s.goto (place base offset)) =
      runOol k ((if condHolds (field w 28 4) s.flags then u else s).goto (place base (offset + 4))) := by
  have other := not_dataProcessing has (by decide)
  refine run_on arm fetched (by rw [stays]; rfl) (by rw [other]; rfl) ?_ k
  rw [execArm_access has conditional, goto_flags]
  by_cases holds : condHolds (field w 28 4) s.flags = true
  · rw [if_pos holds, if_pos holds, ok holds]
  · rw [if_neg holds, if_neg holds, nextArm, goto_goto, goto_pc]
    rw [show place base offset + 4#32 = place base (offset + 4) from place_add base offset 4]

/-- A load of a register from near the pc. -/
private theorem run_literal {t : BitVec 4} {distance : Word} (shape : LiteralLoad w t distance)
    (other : t ≠ 15#4) (conditional : Conditional w)
    (offset target : Nat) (arm : s.thumb = false) (aligned : base.toNat % 4 = 0)
    (whole : offset % 4 = 0 ∧ target % 4 = 0)
    (there : BitVec.ofNat 32 offset + 8#32 + distance = BitVec.ofNat 32 target)
    (fetched : s.load (place base offset) = w) (k : Nat) :
    runOol (k + 1) (s.goto (place base offset)) =
      runOol k ((if condHolds (field w 28 4) s.flags then s.writeR t (s.load (place base target))
        else s).goto (place base (offset + 4))) := by
  refine run_access shape.has conditional arm fetched (shape.loads.trans (decide_eq_false other))
    (fun _ => ?_) k
  rw [execLoadStore_literal (s := s) shape offset target arm aligned whole there, if_neg other]

/-- The jump to a constant of the code, under any condition. -/
private theorem run_jump {distance : Word} (shape : LiteralLoad w 15#4 distance)
    (always : field w 28 4 = 14#4) (offset target : Nat)
    (arm : s.thumb = false) (aligned : base.toNat % 4 = 0) (whole : offset % 4 = 0 ∧ target % 4 = 0)
    (there : BitVec.ofNat 32 offset + 8#32 + distance = BitVec.ofNat 32 target)
    (fetched : s.load (place base offset) = w)
    (next : s.load (place base target) = x) (even : x.toNat % 4 = 0) (k : Nat) :
    runOol (k + 1) (s.goto (place base offset)) = some (s.goto x) := by
  have conditional : Conditional w :=
    ⟨not_matches_of_conflict shape.has (by decide), by rw [always]; decide⟩
  have loads : wordMatches w "----010--0-1----1111------------" = true := shape.loads
  have holds : condHolds (field w 28 4) s.flags = true := by rw [always]; rfl
  have ran := execLoadStore_literal (s := s) shape offset target arm aligned whole there
  rw [if_pos rfl, next, leave_arm arm even] at ran
  rw [run_leave arm fetched (by rw [loads, holds]; rfl), execArm_access shape.has conditional,
    goto_flags, if_pos holds, ran]

/-- An access to the stack, without a condition. -/
private theorem access_facts {p : Pattern} (has : wordMatches w p = true)
    (loadStore : (Pattern.bits loadStorePattern).inside p.bits = true)
    (always : field (BitVec.ofNat 32 p.mask) 28 4 = BitVec.allOnes 4 ∧
      field (BitVec.ofNat 32 p.value) 28 4 = 14#4) :
    wordMatches w loadStorePattern = true ∧ Conditional w ∧ field w 28 4 = 14#4 := by
  have access := matches_of_inside has loadStore
  have condition : field w 28 4 = 14#4 := (field_of_matches has 28 4 always.1).trans always.2
  exact ⟨access, ⟨not_matches_of_conflict access (by decide), by rw [condition]; decide⟩, condition⟩

private theorem low_register {t : BitVec 4} (low : t.toNat < 8) : t ≠ 15#4 ∧ t ≠ sp := by
  constructor
  · intro fifteen
    rw [fifteen] at low
    exact absurd low (by decide)
  · intro stack
    rw [stack] at low
    exact absurd low (by decide)

/-- What `push` of a register leaves. -/
def pushedState (s : State) (t : BitVec 4) : State :=
  (s.writeR sp (s.r sp - 4#32)).store (s.r sp - 4#32) (s.r t)

private theorem run_push {t : BitVec 4}
    (has : wordMatches w "1110010100101101----000000000100" = true) (register : field w 12 4 = t)
    (low : t.toNat < 8) (arm : s.thumb = false) (fetched : s.load (place base offset) = w) (k : Nat) :
    runOol (k + 1) (s.goto (place base offset)) =
      runOol k ((pushedState s t).goto (place base (offset + 4))) := by
  obtain ⟨access, conditional, always⟩ := access_facts has (by decide) (by decide)
  have stays : wordMatches w "----010--0-1----1111------------" = false :=
    not_matches_of_conflict has (by decide)
  have base_register : field w 16 4 = 13#4 := field_of_matches has 16 4 (by decide)
  have distance : field w 0 12 = 4#12 := field_of_matches has 0 12 (by decide)
  obtain ⟨known, stack⟩ := low_register low
  have different : (13#4 == t) = false := beq_eq_false_iff_ne.mpr (Ne.symm stack)
  have value : (s.goto (place base offset)).readR t = s.r t := if_neg known
  have two : (13#4 == 15#4) = false := rfl
  have holds : condHolds (field w 28 4) s.flags = true := by rw [always]; rfl
  have next : nextArm (((s.goto (place base offset)).writeR sp (s.r sp - 4#32)).store
      (s.r sp - 4#32) (s.r t)) =
      (pushedState s t).goto (place base (offset + 4)) := congrArg _ (place_add base offset 4)
  have ran := run_access (u := pushedState s t) access conditional arm fetched stays (fun _ => by
    rw [← next]
    simp only [execLoadStore, base_register, register, distance, bit_of_matches has 24 true rfl rfl,
      bit_of_matches has 21 true rfl rfl,
      bit_of_matches has 23 false rfl rfl, bit_of_matches has 20 false rfl rfl, Bool.not_true,
      Bool.false_and, Bool.false_or, Bool.true_and,
      two, different, Bool.false_eq_true, ↓reduceIte, if_neg known, value]
    rfl) k
  rwa [if_pos holds] at ran

/-- What `pop` of a register leaves. -/
def poppedState (s : State) (t : BitVec 4) : State :=
  (s.writeR sp (s.r sp + 4#32)).writeR t (s.load (s.r sp))

private theorem run_pop {t : BitVec 4}
    (has : wordMatches w "1110010010011101----000000000100" = true) (register : field w 12 4 = t)
    (low : t.toNat < 8) (arm : s.thumb = false) (fetched : s.load (place base offset) = w) (k : Nat) :
    runOol (k + 1) (s.goto (place base offset)) =
      runOol k ((poppedState s t).goto (place base (offset + 4))) := by
  obtain ⟨access, conditional, always⟩ := access_facts has (by decide) (by decide)
  obtain ⟨known, stack⟩ := low_register low
  have different : (13#4 == t) = false := beq_eq_false_iff_ne.mpr (Ne.symm stack)
  have base_register : field w 16 4 = 13#4 := field_of_matches has 16 4 (by decide)
  have distance : field w 0 12 = 4#12 := field_of_matches has 0 12 (by decide)
  have stays : wordMatches w "----010--0-1----1111------------" = false := by
    by_contra all
    exact known (register.symm.trans (field_of_matches (Bool.not_eq_false _ ▸ all) 12 4 (by decide)))
  have two : (13#4 == 15#4) = false := rfl
  have holds : condHolds (field w 28 4) s.flags = true := by rw [always]; rfl
  have next : nextArm (((s.goto (place base offset)).writeR sp (s.r sp + 4#32)).writeR t
      (s.load (s.r sp))) =
      (poppedState s t).goto (place base (offset + 4)) := congrArg _ (place_add base offset 4)
  have ran := run_access (u := poppedState s t) access conditional arm fetched stays (fun _ => by
    rw [← next]
    simp only [execLoadStore, base_register, register, distance,
      bit_of_matches has 24 false rfl rfl, bit_of_matches has 21 false rfl rfl,
      bit_of_matches has 23 true rfl rfl, bit_of_matches has 20 true rfl rfl, Bool.not_false,
      Bool.true_and, Bool.true_or, two, different,
      Bool.false_or, Bool.false_eq_true, ↓reduceIte, if_neg known]
    rfl) k
  rwa [if_pos holds] at ran

/-- `str` of a register above the stack pointer. -/
private theorem run_poke {t : BitVec 4}
    (has : wordMatches w "1110010110001101----000000000100" = true) (register : field w 12 4 = t)
    (low : t.toNat < 8) (arm : s.thumb = false) (fetched : s.load (place base offset) = w) (k : Nat) :
    runOol (k + 1) (s.goto (place base offset)) =
      runOol k ((s.store (s.r sp + 4#32) (s.r t)).goto (place base (offset + 4))) := by
  obtain ⟨access, conditional, always⟩ := access_facts has (by decide) (by decide)
  obtain ⟨known, -⟩ := low_register low
  have base_register : field w 16 4 = 13#4 := field_of_matches has 16 4 (by decide)
  have distance : field w 0 12 = 4#12 := field_of_matches has 0 12 (by decide)
  have stays : wordMatches w "----010--0-1----1111------------" = false :=
    not_matches_of_conflict has (by decide)
  have value : (s.goto (place base offset)).readR t = s.r t := if_neg known
  have holds : condHolds (field w 28 4) s.flags = true := by rw [always]; rfl
  have next : nextArm ((s.goto (place base offset)).store (s.r sp + 4#32) (s.r t)) =
      (s.store (s.r sp + 4#32) (s.r t)).goto (place base (offset + 4)) :=
      congrArg _ (place_add base offset 4)
  have ran := run_access (u := s.store (s.r sp + 4#32) (s.r t)) access conditional arm fetched
    stays (fun _ => by
    rw [← next]
    simp only [execLoadStore, base_register, register, distance, bit_of_matches has 24 true rfl rfl,
      bit_of_matches has 21 false rfl rfl,
      bit_of_matches has 23 true rfl rfl, bit_of_matches has 20 false rfl rfl, Bool.not_true,
      Bool.false_and, Bool.false_or,
      Bool.false_eq_true, ↓reduceIte, if_neg known, value]
    rfl) k
  rwa [if_pos holds] at ran

/-- `pop { pc }`. -/
private theorem run_pop_pc (arm : s.thumb = false)
    (fetched : s.load (place base offset) = 0xe49df004#32) (k : Nat) :
    runOol (k + 1) (s.goto (place base offset)) =
      if s.r sp &&& 3#32 = 0#32 then (s.writeR sp (s.r sp + 4#32)).bxWritePc (s.load (s.r sp))
        else none := by
  have always : condHolds (field 0xe49df004#32 28 4) s.flags = true := rfl
  rw [run_leave arm fetched (by rw [always]; decide), execArm_access (by decide) (by decide),
    goto_flags, if_pos always]
  rfl

/-- The branch over the jump to the next instruction. -/
private theorem run_skip (arm : s.thumb = false) (aligned : base.toNat % 4 = 0)
    (cond : field w 28 4 ≠ 15#4)
    (fetched : s.load (place base 0) = conditionally w 0xea000000#32) (k : Nat) :
    runOol (k + 1) (s.goto (place base 0)) =
      runOol k (s.goto (place base (if condHolds (field w 28 4) s.flags then 8 else 4))) := by
  have has : wordMatches (conditionally w 0xea000000#32) "----1010------------------------" = true := by
    rw [conditionally, matches_patch (by decide)]
    decide
  have other := not_dataProcessing has (by decide)
  have condition := copied_condition (w := w) 0xea000000#32
  have conditional : Conditional (conditionally w 0xea000000#32) := by
    refine ⟨?_, by rwa [condition]⟩
    by_contra blx
    exact cond ((condition.symm).trans (by
      rw [show field (conditionally w 0xea000000#32) 28 4 = 15#4 from
        field_of_matches (Bool.not_eq_false _ ▸ blx) 28 4 (by decide)]))
  have immediate : field (conditionally w 0xea000000#32) 0 24 = 0#24 := by
    rw [conditionally, field_patch_outside 0 24 (by decide) (by decide)]
    decide
  have link : (conditionally w 0xea000000#32).getLsbD 24 = false := bit_of_matches has 24 false rfl rfl
  refine run_on (u := s.goto (place base (if condHolds (field w 28 4) s.flags then 8 else 4))) arm
    fetched
    (by rw [not_matches_of_conflict has (by decide)]; rfl) (by rw [other]; rfl) ?_ k
  rw [execArm, other, Bool.false_and, if_neg Bool.false_ne_true,
    execArm_class conditional (matches_of_inside has (by decide)) (show _ =
      [(branchPattern, _)] from rfl), condition, goto_flags]
  by_cases holds : condHolds (field w 28 4) s.flags = true
  · have target : (s.goto (place base 0)).readPc + (0#24 ++ 0#2).signExtend 32 = place base 8 := by
      rw [readPc_arm (s := s.goto (place base 0)) arm, goto_pc,
        show place base 0 + 8#32 = place base 8 from place_add base 0 8,
        show ((0#24 ++ 0#2).signExtend 32 : Word) = 0#32 from rfl, BitVec.add_zero]
    rw [if_pos holds, if_pos holds, execBranch, link, if_neg Bool.false_ne_true, immediate, target,
      State.branchWritePc, goto_thumb, arm,
      if_neg Bool.false_ne_true, align_of_aligned (place_aligned aligned rfl), goto_goto]
  · rw [if_neg holds, if_neg holds, nextArm, goto_goto, goto_pc,
      show place base 0 + 4#32 = place base 4 from place_add base 0 4]

/-! ### Data processing -/

/-- What the instruction leaves, but for the pc. -/
def outcome (w : Word) (result : Word × Flags) (s : State) : State :=
  let t := if setsFlags w then { s with flags := result.2 } else s
  if usesRd w then t.writeR (rd w) result.1 else t

/-- The values of the registers that the instruction reads, put together. -/
def operated (w : Word) (s : State) : Word × Flags :=
  operate w (s.readR (rn w)) (s.readR (rm w)) (s.readR (rs w)) s.flags

theorem outcome_goto (w : Word) (result : Word × Flags) (s : State) (a : Word) :
    (outcome w result s).goto a = outcome w result (s.goto a) := by
  unfold outcome
  split <;> split <;> rfl

@[simp] theorem outcome_thumb (w : Word) (result : Word × Flags) (s : State) :
    (outcome w result s).thumb = s.thumb := by
  unfold outcome
  split <;> split <;> rfl

@[simp] theorem outcome_memory (w : Word) (result : Word × Flags) (s : State) :
    (outcome w result s).memory = s.memory := by
  unfold outcome
  split <;> split <;> rfl

@[simp] theorem outcome_pc (w : Word) (result : Word × Flags) (s : State) :
    (outcome w result s).pc = s.pc := by
  unfold outcome
  split <;> split <;> rfl

/-- An instruction whose result goes to a register other than the pc. -/
private theorem execDataProcessing_register (allowed : predictable w = true)
    (other : usesRd w = true → rd w ≠ 15#4) (s : State) :
    execDataProcessing w s = some (nextArm (outcome w (operated w s) s)) := by
  unfold execDataProcessing outcome
  rw [allowed, Bool.not_true, if_neg Bool.false_ne_true]
  cases uses : usesRd w with
  | true => simp only [Bool.not_true, Bool.false_eq_true, ↓reduceIte, if_neg (other uses), operated]
  | false => simp only [Bool.not_false, ↓reduceIte, Bool.false_eq_true, operated]

private theorem execDataProcessing_pc (allowed : predictable w = true) (uses : usesRd w = true)
    (pc : rd w = 15#4) (s : State) :
    execDataProcessing w s = s.bxWritePc (operated w s).1 := by
  have flags : setsFlags w = false := by
    rw [predictable, uses, show (rd w == 15#4) = true by rw [pc]; rfl] at allowed
    cases sets : setsFlags w with
    | false => rfl
    | true => simp [sets] at allowed
  unfold execDataProcessing
  simp only [allowed, uses, flags, pc, Bool.not_true, Bool.false_eq_true, ↓reduceIte, operated]

/-- Comparisons that set no flags are other instructions. -/
private theorem not_blx (allowed : predictable w = true) : wordMatches w blxRegPattern = false := by
  by_contra blx
  have has := Bool.not_eq_false _ ▸ blx
  have kind : field w 23 2 = 0b10#2 := field_of_matches has 23 2 (by decide)
  have sets : setsFlags w = false := bit_of_matches has 20 false rfl rfl
  have unused : usesRd w = false := by rw [usesRd, kind]; rfl
  rw [predictable, sets, unused] at allowed
  simp at allowed

private theorem execArm_dp (dp : isDataProcessing w = true) (allowed : predictable w = true)
    (cond : field w 28 4 ≠ 15#4) (s : State) :
    execArm w s = if condHolds (field w 28 4) s.flags then execDataProcessing w s
      else some (nextArm s) := by
  rw [execArm, dp, not_blx allowed, Bool.not_false, Bool.and_self, if_pos rfl, if_neg cond]

private theorem dp_loads (dp : isDataProcessing w = true) :
    wordMatches w "----010--0-1----1111------------" = false := by
  by_contra all
  rw [not_dataProcessing (Bool.not_eq_false _ ▸ all) (by decide)] at dp
  cases dp

/-- The result goes to a register other than the pc. -/
private theorem run_dp (dp : isDataProcessing w = true) (allowed : predictable w = true)
    (cond : field w 28 4 ≠ 15#4)
    (other : usesRd w = true → rd w ≠ 15#4) (offset : Nat) (arm : s.thumb = false)
    (fetched : s.load (place base offset) = w) (k : Nat) :
    runOol (k + 1) (s.goto (place base offset)) =
      runOol k ((if condHolds (field w 28 4) s.flags then outcome w
        (operated w (s.goto (place base offset))) s else s).goto
        (place base (offset + 4))) := by
  have computes : (isDataProcessing w && usesRd w && rd w == 15#4 &&
      condHolds (field w 28 4) s.flags) = false := by
    cases uses : usesRd w with
    | false => rw [Bool.and_false]; rfl
    | true => rw [beq_eq_false_iff_ne.mpr (other uses), Bool.and_false]; rfl
  refine run_on arm fetched (by rw [dp_loads dp]; rfl) computes ?_ k
  rw [execArm_dp dp allowed cond, goto_flags, execDataProcessing_register allowed other]
  by_cases holds : condHolds (field w 28 4) s.flags = true
  · rw [if_pos holds, if_pos holds, nextArm, outcome_pc, goto_pc, outcome_goto, goto_goto, outcome_goto,
      show place base offset + 4#32 = place base (offset + 4) from place_add base offset 4]
  · rw [if_neg holds, if_neg holds, nextArm, goto_goto, goto_pc,
      show place base offset + 4#32 = place base (offset + 4) from place_add base offset 4]

/-- `sub sp, #4`. -/
private theorem run_allocate (arm : s.thumb = false)
    (fetched : s.load (place base offset) = 0xe24dd004#32) (k : Nat) :
    runOol (k + 1) (s.goto (place base offset)) =
      runOol k ((s.writeR sp (s.r sp - 4#32)).goto (place base (offset + 4))) := by
  have ran := run_dp (w := 0xe24dd004#32) (s :=
    s) (by decide) (by decide) (by decide) (fun _ => by decide) offset arm fetched k
  have always : condHolds (field 0xe24dd004#32 28 4) s.flags = true := rfl
  rw [if_pos always] at ran
  rw [ran]
  have difference : (operated 0xe24dd004#32 (s.goto (place base offset))).1 = s.r sp - 4#32 := by
    show (addWithCarry (s.r sp) (~~~4#32) true).1 = _
    apply BitVec.eq_of_toNat_eq
    simp [addWithCarry]
    omega
  rw [show outcome 0xe24dd004#32 (operated 0xe24dd004#32 (s.goto (place base offset))) s =
    s.writeR sp (operated 0xe24dd004#32 (s.goto (place base offset))).1 from rfl, difference]

end Steps

/-! ## The instruction of the template -/

/-- The instruction with `t` for the pc in all operands. -/
structure Substituted (w w' : Word) (t : BitVec 4) : Prop where
  same : SameOperation w w'
  condition : field w' 28 4 = field w 28 4
  encoded : isDataProcessing w' = isDataProcessing w
  first : usesRn w = true → rn w' = if rn w = 15#4 then t else rn w
  unused : usesRn w = false → rn w' = rn w
  second : usesRm w = true → rm w' = if rm w = 15#4 then t else rm w

section Substituted

variable {w w' : Word} {t : BitVec 4} {s u : State}

/-- An operand that is not the pc is no other register that the code changes. -/
def Operands (w : Word) (P : BitVec 4 → Prop) : Prop :=
  (usesRn w = true → rn w ≠ 15#4 → P (rn w)) ∧ (usesRm w = true → rm w ≠ 15#4 → P (rm w))

private theorem Substituted.allowed (sub : Substituted w w' t) (allowed : predictable w = true)
    (shift : usesRs w = false)
    (result : usesRd w = true → rd w' ≠ 15#4) (none_ : usesRd w = false → rd w' = rd w) :
    predictable w' = true := by
  rw [predictable, shift] at allowed
  rw [predictable, sub.same.usesRd, sub.same.usesRn, sub.same.usesRs, sub.same.setsFlags, shift]
  simp only [Bool.false_and, Bool.not_false, Bool.and_true, Bool.and_eq_true] at allowed ⊢
  obtain ⟨⟨compares, moves⟩, -⟩ := allowed
  refine ⟨⟨?_, ?_⟩, ?_⟩
  · cases uses : usesRd w with
    | true => rfl
    | false =>
      rw [uses] at compares
      rwa [none_ uses]
  · cases uses : usesRn w with
    | true => rfl
    | false =>
      rw [uses] at moves
      rwa [sub.unused uses]
  · cases uses : usesRd w with
    | true => rw [beq_eq_false_iff_ne.mpr (result uses)]; rfl
    | false => rfl

/-- The instruction of the template reads what the original one does. -/
private theorem Substituted.operated_eq (sub : Substituted w w' t) (shift : usesRs w = false)
    (flags : u.flags = s.flags)
    (pc : u.readR t = s.readPc) (others : Operands w fun q => u.r q = s.r q) :
    operated w' u = operated w s := by
  have read {q q' : BitVec 4} (is : q' = if q = 15#4 then t else q) (other : q ≠ 15#4 →
      u.r q = s.r q) : u.readR q' = s.readR q := by
    by_cases fifteen : q = 15#4
    · rw [is, if_pos fifteen, pc, State.readR, if_pos fifteen]
    · rw [is, if_neg fifteen, State.readR, if_neg fifteen, State.readR, if_neg fifteen, other fifteen]
  rw [operated, operated, flags]
  refine sub.same.operate_eq (fun uses => read (sub.first uses) (others.1 uses)) (fun uses =>
    read (sub.second uses) (others.2 uses))
    (fun uses => ?_) _
  rw [shift] at uses
  cases uses

private theorem outcome_same (same : SameOperation w w') (register : rd w' = rd w)
    (result : Word × Flags) (s : State) :
    outcome w' result s = outcome w result s := by
  rw [outcome, outcome, same.setsFlags, same.usesRd, register]

private theorem outcome_overwrites (uses : usesRd w = true) (result : Word × Flags)
    (s : State) (x : Word) :
    outcome w result (s.writeR (rd w) x) = outcome w result s := by
  unfold outcome
  rw [uses, if_pos rfl, if_pos rfl]
  split
  · exact writeR_writeR (rd w) { s with flags := result.2 } x result.1
  · exact writeR_writeR (rd w) s x result.1

end Substituted

/-! ## Templates -/

section Templates

variable {w w' : Word} {s : State} {base handler origin : Word} {template : Template}

private theorem literal_setReg {d : Word} {r : BitVec 4} {distance : Word}
    (shape : LiteralLoad d r distance) (t : BitVec 4) :
    LiteralLoad (setReg 12 d t) t distance := by
  obtain ⟨has, load, stays, index, base, -, offset⟩ := shape
  refine ⟨?_, ?_, ?_, ?_, ?_, field_setReg_same (by decide), ?_⟩
  · rwa [matches_setReg (by decide)]
  · rwa [getLsbD_setReg_apart (by decide) (by decide)]
  · rwa [getLsbD_setReg_apart (by decide) (by decide)]
  · rwa [getLsbD_setReg_apart (by decide) (by decide)]
  · rwa [field_setReg_apart (by decide) (by decide)]
  · rwa [getLsbD_setReg_apart (by decide) (by decide), field_setReg_apart (by decide) (by decide)]

/-- What the original instruction does, when its result does not go to the pc. -/
private theorem execArm_register (dp : isDataProcessing w = true) (allowed : predictable w = true)
    (cond : field w 28 4 ≠ 15#4)
    (other : usesRd w = true → rd w ≠ 15#4) (s : State) :
    execArm w s = some ((if condHolds (field w 28 4) s.flags then outcome w (operated w s) s
      else s).goto (s.pc + 4#32)) := by
  rw [execArm_dp dp allowed cond]
  split
  · rw [execDataProcessing_register allowed other, nextArm, outcome_pc]
  · rfl

private theorem jump_back : LiteralLoad 0xe51ff004#32 15#4 (-4#32) := literal_next

/-- The templates that load the pc into the register of the result. -/
private theorem run_loading {load : Word} {r : BitVec 4} (shape : LiteralLoad load r 8#32)
    (sub : Substituted w w' (rd w))
    (dp : isDataProcessing w = true) (allowed : predictable w = true) (cond : field w 28 4 ≠ 15#4)
    (uses : usesRd w = true)
    (other : rd w ≠ 15#4) (register : rd w' = rd w) (shift : usesRs w = false)
    (apart : Operands w (· ≠ rd w))
    (arm : s.thumb = false) (aligned : s.pc.toNat % 4 = 0 ∧ base.toNat % 4 = 0)
    (loaded : Loaded s base (armCode [setReg 12 (conditionally w load) (rd w), w', 0xe51ff004#32,
      s.pc + 4#32, s.pc + 8#32, handler,
      origin] 0)) (k : Nat) :
    runOol (k + 3) (s.goto (place base 0)) = execArm w s := by
  have first := loaded_arm loaded (k := 0) rfl
  have second := loaded_arm loaded (k := 1) rfl
  have third := loaded_arm loaded (k := 2) rfl
  have next := loaded_arm loaded (k := 3) rfl
  have pc := loaded_arm loaded (k := 4) rfl
  have literal := literal_setReg (literal_copied (w := w) shape) (rd w)
  have condition : field (setReg 12 (conditionally w load) (rd w)) 28 4 = field w 28 4 := by
    rw [field_setReg_apart (by decide) (by decide), copied_condition]
  have conditional : Conditional (setReg 12 (conditionally w load) (rd w)) :=
    ⟨not_matches_of_conflict literal.has (by decide), by rwa [condition]⟩
  have kept : predictable w' = true :=
    sub.allowed allowed shift (fun _ => by rwa [register]) (fun _ => register)
  have last (u : State) (still : u.thumb = false) (same : u.memory = s.memory) :
      runOol (k + 1) (u.goto (place base 8)) = some (u.goto (s.pc + 4#32)) := by
    refine run_jump jump_back (by decide) 8 12 still aligned.2 (by decide) rfl ?_ ?_
      (sum_aligned aligned.1 rfl) k
    · rwa [State.load, same]
    · rwa [State.load, same]
  have loads := run_literal literal other conditional 0 16 arm aligned.2 (by decide) rfl first (k + 2)
  rw [condition, show s.load (place base 16) = s.pc + 8#32 from pc] at loads
  rw [execArm_register dp allowed cond (fun _ => other)]
  by_cases holds : condHolds (field w 28 4) s.flags = true
  · have same : operated w' ((s.writeR (rd w) (s.pc + 8#32)).goto (place base 4)) = operated w s := by
      refine sub.operated_eq shift rfl ?_ ⟨fun reads known => if_neg (apart.1 reads known),
        fun reads known => if_neg (apart.2 reads known)⟩
      rw [readPc_arm arm]
      exact readR_writeR other (s.goto (place base 4)) _
    have ran := run_dp (s := s.writeR (rd w) (s.pc + 8#32)) (sub.encoded.trans dp) kept
      (by rwa [sub.condition]) (fun _ => by rwa [register])
      4 arm second (k + 1)
    rw [sub.condition, writeR_flags, if_pos holds, same, outcome_same sub.same register,
      outcome_overwrites uses] at ran
    rw [if_pos holds] at loads ⊢
    exact loads.trans (ran.trans (last _ ((outcome_thumb _ _ _).trans arm) (outcome_memory _ _ _)))
  · have ran := run_dp (s := s) (sub.encoded.trans dp) kept (by rwa [sub.condition]) (fun _ =>
      by rwa [register]) 4 arm second (k + 1)
    rw [sub.condition, if_neg holds] at ran
    rw [if_neg holds] at loads ⊢
    exact loads.trans (ran.trans (last s arm rfl))

end Templates

/-! ### Through the stack -/

/-- One of the two words just below the stack pointer. -/
def Scratch (s : State) (a : Word) : Prop := (a - (s.r sp - 8#32)).toNat < 8

/-- The code does not stand just below the stack pointer. -/
def ClearScratch (s : State) (base : Word) (code : Code) : Prop :=
  ∀ i < 2 * code.length, ¬ Scratch s (place base i)

/-- The same state, but for the two words just below the stack pointer of `s`. -/
structure SameButScratch (s t t' : State) : Prop where
  registers : t.r = t'.r
  pc : t.pc = t'.pc
  thumb : t.thumb = t'.thumb
  flags : t.flags = t'.flags
  memory : ∀ a, ¬ Scratch s a → t.memory a = t'.memory a

section Stack

variable {w w' : Word} {t : BitVec 4} {s s' u : State} {base handler origin : Word} {code : Code}

/-- Stores to those two words leave the others. -/
private theorem store_outside {offset : Word} (m : Word → BitVec 8)
    (low : offset = 4#32 ∨ offset = 8#32) (value : Word) {a : Word}
    (free : ¬ Scratch s a) : storeLE m (s.r sp - offset) value a = m a := by
  refine storeLE_apart (Nat.not_lt.mp fun inside => free ?_) value
  rw [Scratch]
  simp only [BitVec.toNat_sub, BitVec.toNat_ofNat] at inside ⊢
  have sp_bound := (s.r sp).isLt
  have a_bound := a.isLt
  rcases low with rfl | rfl
  · simp only [BitVec.toNat_ofNat] at inside
    omega
  · simp only [BitVec.toNat_ofNat] at inside
    omega

private theorem loaded_outside (loaded : Loaded s base code) (clear : ClearScratch s base code)
    (same : ∀ a, ¬ Scratch s a → u.memory a = s.memory a) : Loaded u base code := by
  intro i inside
  rw [← loaded i inside]
  refine loadLE_congr fun j below => same _ ?_
  have free := clear (2 * i + j) (by omega)
  rwa [← place_add] at free

theorem outcome_r (w : Word) (result : Word × Flags) (s : State) (q : BitVec 4) :
    (outcome w result s).r q = if usesRd w = true ∧ q = rd w then result.1 else s.r q := by
  unfold outcome
  cases usesRd w with
  | true =>
    simp only [↓reduceIte, true_and]
    cases setsFlags w <;> rfl
  | false =>
    simp only [Bool.false_eq_true, ↓reduceIte, false_and]
    cases setsFlags w <;> rfl

theorem outcome_flags (w : Word) (result : Word × Flags) (s : State) :
    (outcome w result s).flags = if setsFlags w then result.2 else s.flags := by
  unfold outcome
  split <;> split <;> rfl

/-- The push of a low register, in the template. -/
private theorem push_matches (t : BitVec 4) :
    wordMatches (setReg 12 0xe52d3004#32 t) "1110010100101101----000000000100" = true := by
  rw [matches_setReg (by decide)]
  decide

private theorem pop_matches (t : BitVec 4) :
    wordMatches (setReg 12 0xe49d3004#32 t) "1110010010011101----000000000100" = true := by
  rw [matches_setReg (by decide)]
  decide

private theorem poke_matches (t : BitVec 4) :
    wordMatches (setReg 12 0xe58d3004#32 t) "1110010110001101----000000000100" = true := by
  rw [matches_setReg (by decide)]
  decide

/-- The load of the pc into the temporary register. -/
private theorem literal_temporary {d : Word} {distance : Word} {r : BitVec 4}
    (shape : LiteralLoad d r distance) (always : field d 28 4 = 14#4)
    (t : BitVec 4) : LiteralLoad (setReg 12 d t) t distance ∧ Conditional (setReg 12 d t) ∧
    field (setReg 12 d t) 28 4 = 14#4 := by
  have literal := literal_setReg shape t
  have condition : field (setReg 12 d t) 28 4 = 14#4 :=
    by rw [field_setReg_apart (by decide) (by decide), always]
  exact ⟨literal, ⟨not_matches_of_conflict literal.has (by decide), by rw [condition]; decide⟩,
    condition⟩

/-- The instruction between a push and a pop of the register that it has for the pc. -/
private theorem saved_outcome (low : t.toNat < 8) (apart : usesRd w = true → rd w ≠ t ∧ rd w ≠ sp)
    (result : Word × Flags) (x : Word)
    (a : Word) :
    SameButScratch s ((poppedState (outcome w result ((pushedState s t).writeR t x)) t).goto a)
    ((outcome w result s).goto a) := by
  obtain ⟨-, stack⟩ := low_register low
  have moved : (outcome w result ((pushedState s t).writeR t x)).r sp = s.r sp - 4#32 := by
    rw [outcome_r, if_neg fun both => (apart both.1).2 both.2.symm]
    exact (if_neg (Ne.symm stack)).trans rfl
  have found : (outcome w result ((pushedState s t).writeR t x)).load (s.r sp - 4#32) = s.r t := by
    rw [State.load, outcome_memory]
    exact loadLE_storeLE (by decide) (by decide) _
  refine ⟨?_, rfl, ?_, ?_, ?_⟩
  · funext q
    rw [goto_r, goto_r, poppedState, moved, found, BitVec.sub_add_cancel, outcome_r]
    by_cases saved : q = t
    · have other : ¬ (usesRd w = true ∧ q = rd w) :=
        fun both => (apart both.1).1 (both.2.symm.trans saved)
      rw [if_neg other, saved]
      exact if_pos rfl
    · refine (if_neg saved).trans ?_
      by_cases pointer : q = sp
      · have other : ¬ (usesRd w = true ∧ q = rd w) :=
          fun both => (apart both.1).2 (both.2.symm.trans pointer)
        rw [if_neg other, pointer]
        rfl
      · refine (if_neg pointer).trans ?_
        rw [outcome_r]
        split
        · rfl
        · exact (if_neg saved).trans (if_neg pointer)
  · rw [goto_thumb, goto_thumb, poppedState, writeR_thumb, writeR_thumb, outcome_thumb, outcome_thumb]
    rfl
  · rw [goto_flags, goto_flags, poppedState, writeR_flags, writeR_flags, outcome_flags, outcome_flags]
    rfl
  · intro b free
    show (outcome w result ((pushedState s t).writeR t x)).memory b = (outcome w result s).memory b
    rw [outcome_memory, outcome_memory]
    exact store_outside s.memory (.inl rfl) _ free

private theorem literal_saved : LiteralLoad 0xe59f300c#32 3#4 12#32 := by
  constructor <;> decide

private theorem literal_computed : LiteralLoad 0xe59f3010#32 3#4 16#32 := by
  constructor <;> decide

/-- The templates that save a register. -/
private theorem run_saving (sub : Substituted w w' t) (dp : isDataProcessing w = true)
    (allowed : predictable w = true)
    (cond : field w 28 4 ≠ 15#4) (low : t.toNat < 8) (named : Operands w (· ≠ t))
    (stack : condHolds (field w 28 4) s.flags = true → Operands w (· ≠ sp))
    (result : usesRd w = true → rd w ≠ 15#4 ∧ rd w ≠ t ∧ rd w ≠ sp) (register : rd w' = rd w)
    (shift : usesRs w = false)
    (arm : s.thumb = false) (aligned : s.pc.toNat % 4 = 0 ∧ base.toNat % 4 = 0)
    (is : code = armCode [conditionally w 0xea000000#32, 0xe59ff010#32, setReg 12 0xe52d3004#32 t,
      setReg 12 0xe59f300c#32 t, w',
      setReg 12 0xe49d3004#32 t, 0xe51ff004#32, s.pc + 4#32, s.pc + 8#32, handler, origin] 0)
    (loaded : Loaded s base code) (clear : ClearScratch s base code) (ran : execArm w s = some s') :
    ∃ n u, runOol n (s.goto (place base 0)) = some u ∧ SameButScratch s u s' := by
  subst is
  rw [execArm_register dp allowed cond (fun uses => (result uses).1)] at ran
  obtain rfl := Option.some.inj ran
  have first := run_skip arm aligned.2 cond (loaded_arm loaded (k := 0) rfl)
  by_cases holds : condHolds (field w 28 4) s.flags = true
  · rw [if_pos holds] at first ⊢
    have pushes : ∀ a, ¬ Scratch s a → (pushedState s t).memory a = s.memory a :=
      fun a free => store_outside s.memory (.inl rfl) _ free
    have later : Loaded (pushedState s t) base _ := loaded_outside loaded clear pushes
    have push := run_push (push_matches t) (field_setReg_same (by decide)) low arm
      (loaded_arm loaded (k := 2) rfl) 4
    obtain ⟨literal, conditional, always⟩ := literal_temporary literal_saved (by decide) t
    have load := run_literal (s :=
      pushedState s t) literal (low_register low).1 conditional 12 32 arm aligned.2 (by decide) rfl
      (loaded_arm later (k := 3) rfl) 3
    rw [always, if_pos (show condHolds 14#4 _ = true from rfl),
      show (pushedState s t).load (place base 32) = s.pc + 8#32 from
      loaded_arm later (k := 8) rfl] at load
    have kept : predictable w' = true :=
      sub.allowed allowed shift (fun uses => register ▸ (result uses).1) (fun _ => register)
    have compute := run_dp (s :=
      (pushedState s t).writeR t (s.pc + 8#32)) (sub.encoded.trans dp) kept (by rwa [sub.condition])
      (fun uses => register ▸ (result (sub.same.usesRd ▸ uses)).1) 16 arm (loaded_arm (s :=
        (pushedState s t).writeR t (s.pc + 8#32)) later (k := 4) rfl) 2
    have read (q : BitVec 4) (other : q ≠ t) (pointer : q ≠ sp) :
        (((pushedState s t).writeR t (s.pc + 8#32)).goto (place base 16)).r q = s.r q :=
        (if_neg other).trans (if_neg pointer)
    have same : operated w' (((pushedState s t).writeR t (s.pc + 8#32)).goto (place base 16)) =
        operated w s := by
      refine sub.operated_eq shift rfl ?_ ⟨fun reads known =>
        read _ (named.1 reads known) ((stack holds).1 reads known),
        fun reads known => read _ (named.2 reads known) ((stack holds).2 reads known)⟩
      rw [readPc_arm arm]
      exact readR_writeR (low_register low).1 ((pushedState s t).goto (place base 16)) _
    rw [sub.condition, if_pos (show condHolds (field w 28 4)
      ((pushedState s t).writeR t (s.pc + 8#32)).flags = true from holds), same,
      outcome_same sub.same register] at compute
    have still : (outcome w (operated w s) ((pushedState s t).writeR t (s.pc + 8#32))).thumb =
        false := (outcome_thumb _ _ _).trans arm
    have computed : Loaded (outcome w (operated w s) ((pushedState s t).writeR t (s.pc + 8#32)))
        base _ :=
      loaded_outside loaded clear fun a free => (congrFun (outcome_memory _ _ _) a).trans (pushes a free)
    have pop := run_pop (pop_matches t) (field_setReg_same (by decide)) low still
      (loaded_arm computed (k := 5) rfl) 1
    have jump := run_jump (s := poppedState
      (outcome w (operated w s) ((pushedState s t).writeR t (s.pc + 8#32))) t) literal_next (by decide)
      24 28 still aligned.2 (by decide) rfl (loaded_arm computed (k :=
        6) rfl) (loaded_arm computed (k := 7) rfl)
      (sum_aligned aligned.1 rfl) 0
    exact ⟨6, _, (first 5).trans (push.trans (load.trans (compute.trans (pop.trans jump)))),
      saved_outcome low (fun uses => (result uses).2) _ _ _⟩
  · rw [if_neg holds] at first ⊢
    have shape : LiteralLoad 0xe59ff010#32 15#4 16#32 := by constructor <;> decide
    have jump := run_jump (s := s) shape (by decide) 4 28 arm aligned.2 (by decide) rfl
      (loaded_arm loaded (k := 1) rfl)
      (loaded_arm loaded (k := 7) rfl) (sum_aligned aligned.1 rfl) 0
    exact ⟨2, _, (first 1).trans jump, ⟨rfl, rfl, rfl, rfl, fun _ _ => rfl⟩⟩

/-! ### Computing the pc -/

/-- Writing the pc depends on nothing but the value. -/
private theorem bxWritePc_same {v : Word} (registers : u.r = s.r) (flags : u.flags = s.flags)
    (ran : s.bxWritePc v = some s') :
    u.bxWritePc v = some { s' with memory := u.memory } ∧ s'.memory = s.memory := by
  unfold State.bxWritePc at ran ⊢
  split at ran
  · rename_i thumb
    obtain rfl := Option.some.inj ran
    rw [if_pos thumb, registers, flags]
    exact ⟨rfl, rfl⟩
  · rename_i arm
    split at ran
    · cases ran
    · rename_i whole
      obtain rfl := Option.some.inj ran
      rw [if_neg arm, if_neg whole, registers, flags]
      exact ⟨rfl, rfl⟩

/-- The state after the room for the pc, the push and the load of the pc. -/
private def allocated (s : State) (t : BitVec 4) : State :=
  (pushedState (s.writeR sp (s.r sp - 4#32)) t).writeR t (s.pc + 8#32)

/-- The state after the pop of the temporary register, with the computed pc on the stack. -/
private def restored (s : State) (t : BitVec 4) (value : Word) : State :=
  poppedState (((allocated s t).writeR t value).store (((allocated s t).writeR t value).r sp + 4#32)
    (((allocated s t).writeR t value).r t)) t

private theorem minus_eight (x : Word) : x - 4#32 - 4#32 = x - 8#32 ∧ x - 8#32 + 4#32 = x - 4#32 := by
  constructor <;> bv_omega

private theorem allocated_sp (low : t.toNat < 8) (v : Word) :
    ((allocated s t).writeR t v).r sp = s.r sp - 8#32 := by
  obtain ⟨-, stack⟩ := low_register low
  rw [← (minus_eight (s.r sp)).1]
  exact ((if_neg (Ne.symm stack)).trans (if_neg (Ne.symm stack))).trans rfl

private theorem allocated_memory (low : t.toNat < 8) :
    (allocated s t).memory = storeLE s.memory (s.r sp - 8#32) (s.r t) := by
  obtain ⟨-, stack⟩ := low_register low
  have kept : (s.writeR sp (s.r sp - 4#32)).r t = s.r t := if_neg stack
  rw [← (minus_eight (s.r sp)).1, ← kept]
  rfl

private theorem restored_memory (low : t.toNat < 8) (v : Word) :
    (restored s t v).memory = storeLE (storeLE s.memory (s.r sp - 8#32) (s.r t)) (s.r sp - 4#32) v := by
  have value : ((allocated s t).writeR t v).r t = v := if_pos rfl
  have memory : (restored s t v).memory =
      storeLE (allocated s t).memory (((allocated s t).writeR t v).r sp + 4#32)
    (((allocated s t).writeR t v).r t) := rfl
  rw [memory, value, allocated_sp low, allocated_memory low, (minus_eight (s.r sp)).2]

private theorem restored_r (low : t.toNat < 8) (v : Word) (q : BitVec 4) :
    (restored s t v).r q = if q = sp then s.r sp - 4#32 else s.r q := by
  obtain ⟨-, stack⟩ := low_register low
  have pointer := allocated_sp (s := s) low v
  have found : loadLE 32 (restored s t v).memory (s.r sp - 8#32) = s.r t := by
    rw [restored_memory low, loadLE_storeLE_apart]
    · exact loadLE_storeLE (by decide) (by decide) _
    · bv_omega
    · bv_omega
  by_cases saved : q = t
  · rw [saved, if_neg stack, ← found, ← pointer]
    exact if_pos rfl
  · refine (if_neg saved).trans ?_
    by_cases here : q = sp
    · rw [here, if_pos rfl, ← (minus_eight (s.r sp)).2, ← pointer]
      rfl
    · rw [if_neg here]
      exact (if_neg here).trans ((if_neg saved).trans
        ((if_neg saved).trans ((if_neg here).trans (if_neg here))))

private theorem restored_load (low : t.toNat < 8) (v : Word) :
    (restored s t v).load (s.r sp - 4#32) = v := by
  rw [State.load, restored_memory low]
  exact loadLE_storeLE (by decide) (by decide) _

/-- The templates that compute the pc. -/
private theorem run_computing (sub : Substituted w w' t) (dp : isDataProcessing w = true)
    (allowed : predictable w = true)
    (cond : field w 28 4 ≠ 15#4) (low : t.toNat < 8) (named : Operands w (· ≠ t))
    (stack : condHolds (field w 28 4) s.flags = true → Operands w (· ≠ sp) ∧ (s.r sp).toNat % 4 = 0)
    (uses : usesRd w = true) (pc : rd w = 15#4) (register : rd w' = t) (shift : usesRs w = false)
    (arm : s.thumb = false) (aligned : s.pc.toNat % 4 = 0 ∧ base.toNat % 4 = 0)
    (is : code = armCode [conditionally w 0xea000000#32, 0xe59ff018#32, 0xe24dd004#32,
      setReg 12 0xe52d3004#32 t,
      setReg 12 0xe59f3010#32 t, w', setReg 12 0xe58d3004#32 t, setReg 12 0xe49d3004#32 t,
      0xe49df004#32, s.pc + 4#32, s.pc + 8#32,
      handler, origin] 0)
    (loaded : Loaded s base code) (clear : ClearScratch s base code) (ran : execArm w s = some s') :
    ∃ n u, runOol n (s.goto (place base 0)) = some u ∧ SameButScratch s u s' := by
  subst is
  obtain ⟨known, pointer⟩ := low_register low
  rw [execArm_dp dp allowed cond] at ran
  have first := run_skip arm aligned.2 cond (loaded_arm loaded (k := 0) rfl)
  by_cases holds : condHolds (field w 28 4) s.flags = true
  · rw [if_pos holds] at first ran
    rw [execDataProcessing_pc allowed uses pc] at ran
    obtain ⟨sources, whole⟩ := stack holds
    have allocate := run_allocate arm (loaded_arm loaded (k := 2) rfl) 6
    have room : Loaded (s.writeR sp (s.r sp - 4#32)) base _ := loaded
    have push := run_push (s := s.writeR sp (s.r sp - 4#32)) (push_matches t)
      (field_setReg_same (by decide)) low arm
      (loaded_arm room (k := 3) rfl) 5
    have keeps : ∀ a, ¬ Scratch s a → (allocated s t).memory a = s.memory a := fun a free => by
      rw [allocated_memory low]
      exact store_outside s.memory (.inr rfl) _ free
    have later : Loaded (allocated s t) base _ := loaded_outside loaded clear keeps
    obtain ⟨literal, conditional, always⟩ := literal_temporary literal_computed (by decide) t
    have load := run_literal (s :=
      pushedState (s.writeR sp (s.r sp - 4#32)) t) literal known conditional 16 40 arm aligned.2
        (by decide) rfl
      (loaded_arm (s := pushedState (s.writeR sp (s.r sp - 4#32)) t) later (k := 4) rfl) 4
    rw [always, if_pos (show condHolds 14#4 _ = true from rfl),
      show (pushedState (s.writeR sp (s.r sp - 4#32)) t).load (place base 40) =
        s.pc + 8#32 from loaded_arm later (k := 10) rfl] at load
    have kept : predictable w' = true :=
      sub.allowed allowed shift (fun _ => by rwa [register]) (fun none_ =>
        by rw [uses] at none_; cases none_)
    have compute := run_dp (s :=
      allocated s t) (sub.encoded.trans dp) kept (by rwa [sub.condition]) (fun _ =>
        by rwa [register]) 20 arm
      (loaded_arm later (k := 5) rfl) 3
    have read (q : BitVec 4) (other : q ≠ t) (below : q ≠ sp) :
        ((allocated s t).goto (place base 20)).r q = s.r q :=
      (if_neg other).trans ((if_neg below).trans (if_neg below))
    have same : operated w' ((allocated s t).goto (place base 20)) = operated w s := by
      refine sub.operated_eq shift rfl ?_ ⟨fun reads other =>
        read _ (named.1 reads other) (sources.1 reads other),
        fun reads other => read _ (named.2 reads other) (sources.2 reads other)⟩
      rw [readPc_arm arm]
      exact readR_writeR known ((pushedState (s.writeR sp (s.r sp - 4#32)) t).goto (place base 20)) _
    have flagless : setsFlags w = false := by
      rw [predictable, uses, show (rd w == 15#4) = true by rw [pc]; rfl] at allowed
      cases sets : setsFlags w with
      | false => rfl
      | true => simp [sets] at allowed
    have result : outcome w' (operated w s) (allocated s t) =
        (allocated s t).writeR t (operated w s).1 := by
      rw [outcome, sub.same.setsFlags, sub.same.usesRd, flagless, uses, register]
      rfl
    rw [sub.condition, if_pos (show condHolds (field w 28 4) (allocated s t).flags =
      true from holds), same, result] at compute
    have computed : Loaded ((allocated s t).writeR t (operated w s).1) base _ := later
    have poke := run_poke (s := (allocated s t).writeR t (operated w s).1) (poke_matches t)
      (field_setReg_same (by decide)) low arm
      (loaded_arm computed (k := 6) rfl) 2
    have outside : ∀ a, ¬ Scratch s a → (restored s t (operated w s).1).memory a = s.memory a :=
      fun a free => by
      rw [restored_memory low, store_outside _ (.inl rfl) _ free, store_outside _ (.inr rfl) _ free]
    have back : Loaded (restored s t (operated w s).1) base _ := loaded_outside loaded clear outside
    have pop := run_pop (pop_matches t) (field_setReg_same (by decide)) low
      (s := ((allocated s t).writeR t (operated w s).1).store
        (((allocated s t).writeR t (operated w s).1).r sp + 4#32)
        (((allocated s t).writeR t (operated w s).1).r t)) arm (loaded_arm (s := _) back (k := 7) rfl) 1
    have leave := run_pop_pc (s := restored s t (operated w s).1) arm (loaded_arm back (k := 8) rfl) 0
    have top : (restored s t (operated w s).1).r sp = s.r sp - 4#32 :=
      (restored_r low _ sp).trans (if_pos rfl)
    have inside : s.r sp - 4#32 &&& 3#32 = 0#32 := by
      rw [and_three_iff, BitVec.toNat_sub]
      simp
      omega
    rw [top, if_pos inside, restored_load low, BitVec.sub_add_cancel] at leave
    have registers : ((restored s t (operated w s).1).writeR sp (s.r sp)).r = s.r := by
      funext q
      by_cases here : q = sp
      · rw [here]
        rfl
      · exact (if_neg here).trans ((restored_r low _ q).trans (if_neg here))
    obtain ⟨ended, memory⟩ := bxWritePc_same (u :=
      (restored s t (operated w s).1).writeR sp (s.r sp)) registers rfl ran
    refine ⟨8, _, (first 7).trans
      (allocate.trans (push.trans
        (load.trans (compute.trans (poke.trans (pop.trans (leave.trans ended))))))),
      ⟨rfl, rfl, rfl, rfl, fun a free => ?_⟩⟩
    exact (outside a free).trans (congrFun memory a).symm
  · rw [if_neg holds] at first ran
    obtain rfl := Option.some.inj ran
    have shape : LiteralLoad 0xe59ff018#32 15#4 24#32 := by constructor <;> decide
    have jump := run_jump (s := s) shape (by decide) 4 36 arm aligned.2 (by decide) rfl
      (loaded_arm loaded (k := 1) rfl)
      (loaded_arm loaded (k := 9) rfl) (sum_aligned aligned.1 rfl) 0
    exact ⟨2, _, (first 1).trans jump, ⟨rfl, rfl, rfl, rfl, fun _ _ => rfl⟩⟩

/-- An instruction that does not read the pc reads the same at another address. -/
private theorem operated_goto (allowed : predictable w = true)
    (free : (usesRn w = true → rn w ≠ 15#4) ∧ (usesRm w = true → rm w ≠ 15#4))
    (s : State) (a : Word) : operated w (s.goto a) = operated w s := by
  have read {q : BitVec 4} (known : q ≠ 15#4) : (s.goto a).readR q = s.readR q := by
    rw [State.readR, State.readR, if_neg known, if_neg known, goto_r]
  have shifts : usesRs w = true → rs w ≠ 15#4 := by
    intro uses fifteen
    simp [predictable, uses, fifteen] at allowed
  have itself : SameOperation w w := ⟨rfl, rfl, fun _ => rfl⟩
  exact itself.operate_eq (fun uses => read (free.1 uses)) (fun uses => read (free.2 uses))
    (fun uses => read (shifts uses)) _

/-- The template with the instruction itself. -/
private theorem run_generic (dp : isDataProcessing w = true) (allowed : predictable w = true)
    (cond : field w 28 4 ≠ 15#4)
    (free : (usesRn w = true → rn w ≠ 15#4) ∧ (usesRm w = true → rm w ≠ 15#4))
    (arm : s.thumb = false) (aligned : s.pc.toNat % 4 = 0 ∧ base.toNat % 4 = 0)
    (loaded : Loaded s base (armCode [w, 0xe51ff004#32, s.pc + 4#32, handler, origin] 0))
    (ran : execArm w s = some s') :
    ∃ n, runOol n (s.goto (place base 0)) = some s' := by
  have first := loaded_arm loaded (k := 0) rfl
  have last (u : State) (still : u.thumb = false) (same : u.memory = s.memory) :
      runOol 1 (u.goto (place base 4)) = some (u.goto (s.pc + 4#32)) := by
    refine run_jump literal_next (by decide) 4 8 still aligned.2 (by decide) rfl ?_ ?_
      (sum_aligned aligned.1 rfl) 0
    · rw [State.load, same]
      exact loaded_arm loaded (k := 1) rfl
    · rw [State.load, same]
      exact loaded_arm loaded (k := 2) rfl
  by_cases result : usesRd w = true → rd w ≠ 15#4
  · rw [execArm_register dp allowed cond result] at ran
    obtain rfl := Option.some.inj ran
    have compute := run_dp dp allowed cond result 0 arm first 1
    rw [operated_goto allowed free] at compute
    by_cases holds : condHolds (field w 28 4) s.flags = true
    · rw [if_pos holds] at compute ⊢
      exact ⟨2, compute.trans (last _ ((outcome_thumb _ _ _).trans arm) (outcome_memory _ _ _))⟩
    · rw [if_neg holds] at compute ⊢
      exact ⟨2, compute.trans (last s arm rfl)⟩
  · obtain ⟨uses, pc⟩ : usesRd w = true ∧ rd w = 15#4 := by simpa using result
    rw [execArm_dp dp allowed cond] at ran
    by_cases holds : condHolds (field w 28 4) s.flags = true
    · rw [if_pos holds, execDataProcessing_pc allowed uses pc] at ran
      have leave := run_leave arm first (by rw [dp, uses, pc, holds]; simp) 0
      rw [execArm_dp dp allowed cond, goto_flags, if_pos holds,
        execDataProcessing_pc allowed uses pc, operated_goto allowed free] at leave
      obtain ⟨ended, memory⟩ := bxWritePc_same (u := s.goto (place base (4 * 0))) rfl rfl ran
      refine ⟨1, (leave.trans ended).trans (congrArg some ?_)⟩
      rw [show (s.goto (place base (4 * 0))).memory = s'.memory from memory.symm]
    · rw [if_neg holds] at ran
      obtain rfl := Option.some.inj ran
      have fails : condHolds (field w 28 4) s.flags = false := Bool.eq_false_iff.mpr holds
      have ok : execArm w (s.goto (place base 0)) = some (s.goto (place base 4)) := by
        rw [execArm_dp dp allowed cond, goto_flags, if_neg holds, nextArm, goto_goto, goto_pc]
        exact congrArg _ (congrArg _ (place_add base 0 4))
      have on := run_on (u := s.goto (place base 4)) arm first (by rw [fails, Bool.and_false])
        (by rw [fails, Bool.and_false]) ok 1
      exact ⟨2, on.trans (last s arm rfl)⟩

end Stack

/-! ## Selection -/

section Selection

variable {w v : Word} {t : BitVec 4}

/-- What is known of an instruction for which the template is selected. -/
def Chosen (w : Word) : Template → Prop
  | .armGeneric => (usesRn w = true → rn w ≠ 15#4) ∧ (usesRm w = true → rm w ≠ 15#4)
  | .armDpRn =>
    usesRn w = true ∧ rn w = 15#4 ∧ usesRd w = true ∧ rd w ≠ 15#4 ∧
      (usesRm w = true → rm w ≠ 15#4 ∧ rd w ≠ rm w)
  | .armDpRm =>
    usesRm w = true ∧ rm w = 15#4 ∧ usesRd w = true ∧ rd w ≠ 15#4 ∧
      (usesRn w = true → rn w ≠ 15#4 ∧ rd w ≠ rn w)
  | .armDpRnRm =>
    usesRn w = true ∧ rn w = 15#4 ∧ usesRm w = true ∧ rm w = 15#4 ∧ usesRd w = true ∧ rd w ≠ 15#4
  | .armDpRn2 =>
    usesRn w = true ∧ rn w = 15#4 ∧ (usesRm w = true → rm w ≠ 15#4) ∧
      (usesRd w = true → rd w ≠ 15#4 ∧ rd w ≠ sp)
  | .armDpRm2 =>
    usesRm w = true ∧ rm w = 15#4 ∧ (usesRn w = true → rn w ≠ 15#4) ∧
      (usesRd w = true → rd w ≠ 15#4 ∧ rd w ≠ sp)
  | .armDpRnRm2 => usesRn w = true ∧ rn w = 15#4 ∧ usesRm w = true ∧ rm w = 15#4 ∧ usesRd w = false
  | .armDpRdRn =>
    usesRd w = true ∧ rd w = 15#4 ∧ usesRn w = true ∧ rn w = 15#4 ∧ (usesRm w = true → rm w ≠ 15#4)
  | .armDpRdRm =>
    usesRd w = true ∧ rd w = 15#4 ∧ usesRm w = true ∧ rm w = 15#4 ∧ (usesRn w = true → rn w ≠ 15#4)
  | .armDpRdRnRm =>
    usesRd w = true ∧ rd w = 15#4 ∧ usesRn w = true ∧ rn w = 15#4 ∧ usesRm w = true ∧ rm w = 15#4
  | _ => False

private def chosenBy (w : Word) : TemplateSelect.Selection → Prop
  | .template template => Chosen w template
  | .null => True
  | .assertion => False

private theorem chosen_ite {c : Prop} [Decidable c] {yes no : TemplateSelect.Selection}
    (holds : c → chosenBy w yes)
    (fails : ¬ c → chosenBy w no) : chosenBy w (if c then yes else no) := by
  split
  · exact holds ‹_›
  · exact fails ‹_›

private theorem dataproc_chosen (w : Word) : chosenBy w (decodeArmDataproc w) := by
  have result : (!((field w 21 4).toNat = 0b1000 || (field w 21 4).toNat = 0b1001 ||
      (field w 21 4).toNat = 0b1010 ||
      (field w 21 4).toNat = 0b1011)) = usesRd w := by
    have every : ∀ op : BitVec 4,
        (!(op.toNat = 0b1000 || op.toNat = 0b1001 || op.toNat = 0b1010 || op.toNat = 0b1011)) =
        (field op 2 2 != 0b10#2) := by decide
    have part : field w 23 2 = field (field w 21 4) 2 2 := by
      ext i h
      simp [field]
      grind
    rw [usesRd, part]
    exact every _
  have first : (!((field w 21 4).toNat = 0b1101 || (field w 21 4).toNat = 0b1111)) = usesRn w := by
    have every : ∀ op : BitVec 4, (!(op.toNat = 0b1101 || op.toNat = 0b1111)) =
        (op != 0b1101#4 && op != 0b1111#4) := by decide
    exact every _
  have both : usesRd w = false → usesRn w = true := by
    intro compares
    have every : ∀ op : BitVec 4, (field op 2 2 != 0b10#2) = false →
        (op != 0b1101#4 && op != 0b1111#4) = true := by decide
    refine every (field w 21 4) ?_
    have part : field w 23 2 = field (field w 21 4) 2 2 := by
      ext i h
      simp [field]
      grind
    rwa [← part]
  unfold decodeArmDataproc
  simp only [result, first, TemplateSelect.isPc]
  clear result first
  repeat' refine chosen_ite (fun _ => ?_) fun _ => ?_
  all_goals simp_all [chosenBy, Chosen, usesRm, rn, rm, rd, sp]

/-- Comparisons that set no flags are other instructions, which are decoded first. -/
private theorem not_other {p : Pattern} (allowed : predictable w = true) (has : wordMatches w p = true)
    (compares : field (BitVec.ofNat 32 p.mask) 23 2 = BitVec.allOnes 2 ∧
      field (BitVec.ofNat 32 p.value) 23 2 = 0b10#2)
    (flagless : field (BitVec.ofNat 32 p.mask) 20 1 = BitVec.allOnes 1 ∧
      field (BitVec.ofNat 32 p.value) 20 1 = BitVec.ofBool false) :
    False := by
  have kind : field w 23 2 = 0b10#2 := (field_of_matches has 23 2 compares.1).trans compares.2
  have sets : setsFlags w = false := bit_of_matches has 20 false flagless.1 flagless.2
  have unused : usesRd w = false := by rw [usesRd, kind]; rfl
  rw [predictable, sets, unused] at allowed
  simp at allowed

private def ByDataproc (w : Word) (selection : TemplateSelect.Selection) : Prop :=
  selection = decodeArmDataproc w

open CompletionProofs (selectOn_next) in
private theorem select_dataproc (dp : isDataProcessing w = true) (allowed : predictable w = true)
    (cond : field w 28 4 ≠ 15#4) :
    ByDataproc w (templateSelectArm w) := by
  have conditional {p : Pattern} (has : wordMatches w p = true)
      (all : field (BitVec.ofNat 32 p.mask) 28 4 = BitVec.allOnes 4 ∧
        field (BitVec.ofNat 32 p.value) 28 4 = 15#4) : False :=
    cond ((field_of_matches has 28 4 all.1).trans all.2)
  refine selectOn_next (fun has => (conditional has (by decide)).elim) fun _ => ?_
  refine selectOn_next (fun has => (conditional has (by decide)).elim) fun _ => ?_
  refine selectOn_next (fun has => (conditional has (by decide)).elim) fun _ => ?_
  refine selectOn_next (fun has => (conditional has (by decide)).elim) fun _ => ?_
  refine selectOn_next (fun has => (conditional has (by decide)).elim) fun _ => ?_
  refine selectOn_next (fun has => (not_other allowed has (by decide) (by decide)).elim) fun _ => ?_
  refine selectOn_next (fun has => ?_) fun _ => ?_
  · rw [not_dataProcessing has (by decide)] at dp
    cases dp
  refine selectOn_next (fun has => (not_other allowed has (by decide) (by decide)).elim) fun _ => ?_
  refine selectOn_next (fun has => (not_other allowed has (by decide) (by decide)).elim) fun _ => ?_
  refine selectOn_next (fun has => (not_other allowed has (by decide) (by decide)).elim) fun _ => ?_
  refine selectOn_next (fun has => (not_other allowed has (by decide) (by decide)).elim) fun _ => ?_
  refine selectOn_next (fun has => (not_other allowed has (by decide) (by decide)).elim) fun _ => ?_
  refine selectOn_next (fun has => (not_other allowed has (by decide) (by decide)).elim) fun _ => ?_
  refine selectOn_next (fun _ => rfl) fun shifted => ?_
  refine selectOn_next (fun _ => rfl) fun registers => ?_
  refine selectOn_next (fun _ => rfl) fun immediate => ?_
  rw [isDataProcessing, immediatePattern, immediate, immediateShiftPattern, shifted,
    registerShiftPattern, registers] at dp
  cases dp

/-! ### The instruction of each template -/

private theorem dataProcessing_setReg {low : Nat} (register : low = 0 ∨ low = 12 ∨ low = 16)
    (v : Word) (r : BitVec 4) :
    isDataProcessing (setReg low v r) = isDataProcessing v := by
  rcases register with rfl | rfl | rfl
  · simp only [isDataProcessing,
      matches_setReg (show BitVec.ofNat 32 (Pattern.mask immediatePattern) &&& 0xf#32 <<< 0 =
        0 by decide),
      matches_setReg (show BitVec.ofNat 32 (Pattern.mask immediateShiftPattern) &&& 0xf#32 <<< 0 =
        0 by decide),
      matches_setReg (show BitVec.ofNat 32 (Pattern.mask registerShiftPattern) &&& 0xf#32 <<< 0 =
        0 by decide)]
  · simp only [isDataProcessing,
      matches_setReg (show BitVec.ofNat 32 (Pattern.mask immediatePattern) &&& 0xf#32 <<< 12 =
        0 by decide),
      matches_setReg (show BitVec.ofNat 32 (Pattern.mask immediateShiftPattern) &&& 0xf#32 <<< 12 =
        0 by decide),
      matches_setReg (show BitVec.ofNat 32 (Pattern.mask registerShiftPattern) &&& 0xf#32 <<< 12 =
        0 by decide)]
  · simp only [isDataProcessing,
      matches_setReg (show BitVec.ofNat 32 (Pattern.mask immediatePattern) &&& 0xf#32 <<< 16 =
        0 by decide),
      matches_setReg (show BitVec.ofNat 32 (Pattern.mask immediateShiftPattern) &&& 0xf#32 <<< 16 =
        0 by decide),
      matches_setReg (show BitVec.ofNat 32 (Pattern.mask registerShiftPattern) &&& 0xf#32 <<< 16 =
        0 by decide)]

/-- The same instruction, but for the register of the result. -/
structure ButResult (w v : Word) : Prop where
  fields : ∀ low k, low + k ≤ 32 → low + k ≤ 12 ∨ 16 ≤ low → field v low k = field w low k
  encoded : isDataProcessing v = isDataProcessing w

private theorem butResult_itself (w : Word) : ButResult w w := ⟨fun _ _ _ _ => rfl, rfl⟩

private theorem butResult_setReg (w : Word) (r : BitVec 4) : ButResult w (setReg 12 w r) :=
  ⟨fun _ _ fits apart => field_setReg_apart fits apart, dataProcessing_setReg (.inr (.inl rfl)) w r⟩

private theorem substituted_rn (but : ButResult w v) (uses : usesRn w = true) (pc : rn w = 15#4)
    (other : usesRm w = true → rm w ≠ 15#4)
    (t : BitVec 4) : Substituted w (setReg 16 v t) t where
  same :=
    ⟨(field_setReg_apart (by decide) (by decide)).trans (but.fields 20 6 (by decide) (by decide)),
      (field_setReg_apart (by decide) (by decide)).trans (but.fields 4 8 (by decide) (by decide)),
      fun _ => (field_setReg_apart (by decide) (by decide)).trans
        (but.fields 0 4 (by decide) (by decide))⟩
  condition := (field_setReg_apart (by decide) (by decide)).trans
    (but.fields 28 4 (by decide) (by decide))
  encoded := (dataProcessing_setReg (.inr (.inr rfl)) v t).trans but.encoded
  first := fun _ => by
    rw [if_pos pc]
    exact field_setReg_same (by decide)
  unused := fun none_ => by
    rw [uses] at none_
    cases none_
  second := fun reads => by
    rw [if_neg (other reads)]
    exact (field_setReg_apart (by decide) (by decide)).trans (but.fields 0 4 (by decide) (by decide))

private theorem substituted_rm (but : ButResult w v) (uses : usesRm w = true) (pc : rm w = 15#4)
    (other : usesRn w = true → rn w ≠ 15#4)
    (t : BitVec 4) : Substituted w (setReg 0 v t) t where
  same :=
    ⟨(field_setReg_apart (by decide) (by decide)).trans (but.fields 20 6 (by decide) (by decide)),
      (field_setReg_apart (by decide) (by decide)).trans (but.fields 4 8 (by decide) (by decide)),
      fun none_ => by
        rw [uses] at none_
        cases none_⟩
  condition := (field_setReg_apart (by decide) (by decide)).trans
    (but.fields 28 4 (by decide) (by decide))
  encoded := (dataProcessing_setReg (.inl rfl) v t).trans but.encoded
  first := fun reads => by
    rw [if_neg (other reads)]
    exact (field_setReg_apart (by decide) (by decide)).trans (but.fields 16 4 (by decide) (by decide))
  unused := fun _ => (field_setReg_apart (by decide) (by decide)).trans
    (but.fields 16 4 (by decide) (by decide))
  second := fun _ => by
    rw [if_pos pc]
    exact field_setReg_same (by decide)

private theorem substituted_both (but : ButResult w v) (uses : usesRn w = true ∧ usesRm w = true)
    (pc : rn w = 15#4 ∧ rm w = 15#4)
    (t : BitVec 4) : Substituted w (setReg 16 (setReg 0 v t) t) t where
  same :=
    ⟨((field_setReg_apart (by decide) (by decide)).trans
      (field_setReg_apart (by decide) (by decide))).trans
        (but.fields 20 6 (by decide) (by decide)),
      ((field_setReg_apart (by decide) (by decide)).trans
        (field_setReg_apart (by decide) (by decide))).trans
        (but.fields 4 8 (by decide) (by decide)), fun none_ => by
        rw [uses.2] at none_
        cases none_⟩
  condition :=
    ((field_setReg_apart (by decide) (by decide)).trans
      (field_setReg_apart (by decide) (by decide))).trans
      (but.fields 28 4 (by decide) (by decide))
  encoded := ((dataProcessing_setReg (.inr (.inr rfl)) _ t).trans
    (dataProcessing_setReg (.inl rfl) v t)).trans but.encoded
  first := fun _ => by
    rw [if_pos pc.1]
    exact field_setReg_same (by decide)
  unused := fun none_ => by
    rw [uses.1] at none_
    cases none_
  second := fun _ => by
    rw [if_pos pc.2]
    exact (field_setReg_apart (by decide) (by decide)).trans (field_setReg_same (by decide))

end Selection

/-! ## All templates -/

section

variable {w : Word} {template : Template} {s s' : State} {pc base handler : Word} {code : Code}

/-- The state before an ARM instruction, or the code for it, at an address. -/
def armAt (s : State) (pc : Word) : State := { s with pc := pc, thumb := false }

/-- A template that pushes does not have the stack pointer for an operand, and one that loads the pc
from the stack has a stack that is aligned. -/
def StackFree (s : State) (w : Word) : Template → Prop
  | .armDpRn2 | .armDpRm2 | .armDpRnRm2 => Operands w (· ≠ sp)
  | .armDpRdRn | .armDpRdRm | .armDpRdRnRm => Operands w (· ≠ sp) ∧ (s.r sp).toNat % 4 = 0
  | _ => True

private theorem temporary_operands (w : Word) :
    (temporary w).toNat < 8 ∧ rd w ≠ temporary w ∧ Operands w (· ≠ temporary w) := by
  obtain ⟨low, rd, rn, rm⟩ := temporary_apart w
  exact ⟨low, Ne.symm rd, fun _ _ => Ne.symm rn, fun _ _ => Ne.symm rm⟩

private theorem scratch_at {t t' : State} (same : SameButScratch (armAt s pc) t t') :
    SameButScratch s t t' :=
  ⟨same.registers, same.pc, same.thumb, same.flags, same.memory⟩

/-- The templates for data processing instructions do what the instruction does at
its own address, but for two words below the stack, as long as the instruction does
not read the stack pointer where the template moves it. -/
theorem dataproc_templates_preserve (dp : isDataProcessing w = true) (allowed : predictable w = true)
    (selected : templateSelectArm w = .template template)
    (aligned : pc.toNat % 4 = 0 ∧ base.toNat % 4 = 0)
    (filled : templateGetHandler template pc handler w .arm = some code)
    (loaded : Loaded s base code) (clear : ClearScratch s base code)
    (stack : condHolds (field w 28 4) s.flags = true → StackFree s w template)
    (ran : execArm w (armAt s pc) = some s') :
    ∃ n t, runOol n (armAt s base) = some t ∧ SameButScratch s t s' := by
  have cond : field w 28 4 ≠ 15#4 := by
    intro all
    rw [execArm, dp, not_blx allowed, Bool.not_false, Bool.and_self, if_pos rfl, if_pos all] at ran
    cases ran
  have chosen := dataproc_chosen w
  rw [← select_dataproc dp allowed cond, selected] at chosen
  change Chosen w template at chosen
  have start : armAt s base = (armAt s pc).goto (place base 0) := by
    rw [place, BitVec.add_zero]
    rfl
  have ends {n : Nat} (run : runOol n ((armAt s pc).goto (place base 0)) = some s') :
      ∃ n t, runOol n (armAt s base) = some t ∧ SameButScratch s t s' :=
    ⟨n, s', start ▸ run, rfl, rfl, rfl, rfl, fun _ _ => rfl⟩
  have ends_scratch (run : ∃ n t, runOol n ((armAt s pc).goto (place base 0)) = some t ∧
      SameButScratch (armAt s pc) t s') :
      ∃ n t, runOol n (armAt s base) = some t ∧ SameButScratch s t s' := by
    obtain ⟨n, t, ended, same⟩ := run
    exact ⟨n, t, start ▸ ended, scratch_at same⟩
  obtain ⟨low, apart, named⟩ := temporary_operands w
  have shift_rn (pc : rn w = 15#4) : usesRs w = false := by
    cases uses : usesRs w with
    | false => rfl
    | true => simp [predictable, uses, pc] at allowed
  have shift_rm (pc : rm w = 15#4) : usesRs w = false := by
    cases uses : usesRs w with
    | false => rfl
    | true => simp [predictable, uses, pc] at allowed
  have first_load : LiteralLoad 0xe59f0008#32 0#4 8#32 := by constructor <;> decide
  have second_load : LiteralLoad 0xe59f1008#32 1#4 8#32 := by constructor <;> decide
  have inside (v : Word) (low : Nat) (r : BitVec 4) (other : low = 0 ∨ low = 16) :
      rd (setReg low v r) = rd v :=
    field_setReg_apart (by decide) (by rcases other with rfl | rfl <;> decide)
  cases template with
  | armGeneric =>
    obtain rfl := Option.some.inj ((filled_dp pc handler w rfl).symm.trans filled)
    obtain ⟨n, run⟩ := run_generic (s := armAt s pc) dp allowed cond chosen rfl aligned loaded ran
    exact ends run
  | armDpRn =>
    obtain ⟨uses, fifteen, result, other, second⟩ := chosen
    obtain rfl := Option.some.inj ((filled_dp pc handler w rfl).symm.trans filled)
    have run := run_loading (s := armAt s pc) first_load
      (substituted_rn (butResult_itself w) uses fifteen (fun reads => (second reads).1) (rd w)) dp
        allowed cond result other
      (inside w 16 _ (.inr rfl)) (shift_rn fifteen) ⟨fun _ known => absurd fifteen known,
        fun reads _ => Ne.symm (second reads).2⟩ rfl aligned
      loaded 0
    exact ends (run.trans ran)
  | armDpRm =>
    obtain ⟨uses, fifteen, result, other, first⟩ := chosen
    obtain rfl := Option.some.inj ((filled_dp pc handler w rfl).symm.trans filled)
    have run := run_loading (s := armAt s pc) second_load
      (substituted_rm (butResult_itself w) uses fifteen (fun reads => (first reads).1) (rd w)) dp
        allowed cond result other
      (inside w 0 _ (.inl rfl)) (shift_rm fifteen) ⟨fun reads _ => Ne.symm (first reads).2,
        fun _ known => absurd fifteen known⟩ rfl aligned
      loaded 0
    exact ends (run.trans ran)
  | armDpRnRm =>
    obtain ⟨uses, fifteen, uses', fifteen', result, other⟩ := chosen
    obtain rfl := Option.some.inj ((filled_dp pc handler w rfl).symm.trans filled)
    have run := run_loading (s :=
      armAt s pc) second_load (substituted_both (butResult_itself w) ⟨uses, uses'⟩ ⟨fifteen,
        fifteen'⟩ (rd w)) dp
      allowed cond result other ((inside _ 16 _ (.inr rfl)).trans (inside w 0 _ (.inl rfl)))
        (shift_rn fifteen)
      ⟨fun _ known => absurd fifteen known, fun _ known => absurd fifteen' known⟩ rfl aligned loaded 0
    exact ends (run.trans ran)
  | armDpRn2 =>
    obtain ⟨uses, fifteen, second, result⟩ := chosen
    obtain rfl := Option.some.inj ((filled_dp pc handler w rfl).symm.trans filled)
    exact ends_scratch (run_saving (s :=
      armAt s pc) (substituted_rn (butResult_itself w) uses fifteen second (temporary w)) dp
        allowed cond low
      named stack (fun reads => ⟨(result reads).1, apart, (result reads).2⟩)
        (inside w 16 _ (.inr rfl)) (shift_rn fifteen) rfl aligned rfl
      loaded clear ran)
  | armDpRm2 =>
    obtain ⟨uses, fifteen, first, result⟩ := chosen
    obtain rfl := Option.some.inj ((filled_dp pc handler w rfl).symm.trans filled)
    exact ends_scratch (run_saving (s :=
      armAt s pc) (substituted_rm (butResult_itself w) uses fifteen first (temporary w)) dp
        allowed cond low
      named stack (fun reads => ⟨(result reads).1, apart, (result reads).2⟩)
        (inside w 0 _ (.inl rfl)) (shift_rm fifteen) rfl aligned rfl
      loaded clear ran)
  | armDpRnRm2 =>
    obtain ⟨uses, fifteen, uses', fifteen', compares⟩ := chosen
    obtain rfl := Option.some.inj ((filled_dp pc handler w rfl).symm.trans filled)
    exact ends_scratch (run_saving (s :=
      armAt s pc) (substituted_both (butResult_itself w) ⟨uses, uses'⟩ ⟨fifteen,
        fifteen'⟩ (temporary w)) dp
      allowed cond low named stack (fun reads => by rw [compares] at reads; cases reads)
      ((inside _ 16 _ (.inr rfl)).trans (inside w 0 _ (.inl rfl))) (shift_rn fifteen) rfl aligned
        rfl loaded clear ran)
  | armDpRdRn =>
    obtain ⟨result, target, uses, fifteen, second⟩ := chosen
    obtain rfl := Option.some.inj ((filled_dp pc handler w rfl).symm.trans filled)
    exact ends_scratch (run_computing (s :=
      armAt s pc) (substituted_rn (butResult_setReg w _) uses fifteen second (temporary w)) dp allowed
      cond low named stack result target
        ((inside _ 16 _ (.inr rfl)).trans (field_setReg_same (by decide))) (shift_rn fifteen)
          rfl aligned rfl
      loaded clear ran)
  | armDpRdRm =>
    obtain ⟨result, target, uses, fifteen, first⟩ := chosen
    obtain rfl := Option.some.inj ((filled_dp pc handler w rfl).symm.trans filled)
    exact ends_scratch (run_computing (s :=
      armAt s pc) (substituted_rm (butResult_setReg w _) uses fifteen first (temporary w)) dp allowed
      cond low named stack result target
        ((inside _ 0 _ (.inl rfl)).trans (field_setReg_same (by decide))) (shift_rm fifteen)
          rfl aligned rfl
      loaded clear ran)
  | armDpRdRnRm =>
    obtain ⟨result, target, uses, fifteen, uses', fifteen'⟩ := chosen
    obtain rfl := Option.some.inj ((filled_dp pc handler w rfl).symm.trans filled)
    exact ends_scratch (run_computing (s :=
      armAt s pc) (substituted_both (butResult_setReg w _) ⟨uses, uses'⟩ ⟨fifteen,
        fifteen'⟩ (temporary w))
      dp allowed cond low named stack result target
      (((inside _ 16 _ (.inr rfl)).trans (inside _ 0 _ (.inl rfl))).trans
        (field_setReg_same (by decide))) (shift_rn fifteen) rfl aligned rfl
      loaded clear ran)
  | _ => cases chosen

end

/-- The code for `add pc, pc, r1, lsl #2` at 0x8000. -/
def tableJumpCode : Code :=
  armCode [0xea000000#32, 0xe59ff018#32, 0xe24dd004#32, 0xe52d0004#32, 0xe59f0010#32, 0xe0800101#32,
    0xe58d0004#32, 0xe49d0004#32,
    0xe49df004#32, 0x8004#32, 0x8008#32, 0xa000#32, 0x8000#32] 0

/-- A state with the code at 0x9000, the stack at 0x7000 and 3 in all other registers. -/
def tableJumpState : State where
  r := fun n => if n = sp then 0x7000#32 else 3#32
  pc := 0x8000#32
  thumb := false
  flags := ⟨false, false, false, false⟩
  memory := fun a =>
    let offset := (a - 0x9000#32).toNat
    field (tableJumpCode.getD (offset / 2) 0#16) (8 * (offset % 2)) 8

/-- A jump through a table, at 0x8000. -/
theorem table_jump_preserved :
    ∃ s' n t, execArm 0xe08ff101#32 (armAt tableJumpState 0x8000#32) = some s' ∧ s'.pc = 0x8014#32 ∧
      runOol n (armAt tableJumpState 0x9000#32) = some t ∧ SameButScratch tableJumpState t s' := by
  have loaded : Loaded tableJumpState 0x9000#32 tableJumpCode := by
    show ∀ i, (h : i < 26) → _
    decide
  have clear : ClearScratch tableJumpState 0x9000#32 tableJumpCode := by
    show ∀ i < 52, ¬(_ < 8)
    decide
  have filled : templateGetHandler .armDpRdRn 0x8000#32 0xa000#32 0xe08ff101#32 .arm =
      some tableJumpCode :=
    (filled_dp 0x8000#32 0xa000#32 0xe08ff101#32 rfl).trans
      (congrArg (fun words => some (armCode words 0)) (by decide))
  obtain ⟨s', ran⟩ := Option.isSome_iff_exists.mp
    (show (execArm 0xe08ff101#32 (armAt tableJumpState 0x8000#32)).isSome = true by decide)
  have goes : (execArm 0xe08ff101#32 (armAt tableJumpState 0x8000#32)).map State.pc =
      some 0x8014#32 := by decide
  rw [ran] at goes
  obtain ⟨n, t, ended, same⟩ := dataproc_templates_preserve (by decide) (by decide) (by decide)
    (by decide) filled loaded clear
    (fun _ => ⟨⟨fun _ other => absurd (by decide) other, fun _ _ => by decide⟩, by decide⟩) ran
  exact ⟨s', n, t, ran, Option.some.inj goes, ended, same⟩

end Adbi.DpOolProofs
