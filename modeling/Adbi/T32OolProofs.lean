import Adbi.ArmOolProofs
import Adbi.T32
import Adbi.T32FillProofs

/-! The templates of `arch/arm` for branches and literals of 32-bit Thumb, against
what the instructions do at their own addresses: the same, as long as the offset
of a branch that is taken has been decoded. -/
namespace Adbi.T32OolProofs
open Adbi.Lib Adbi.T32
open Adbi.A32 hiding step runOol
open Adbi.A64 (condHolds)
open Adbi.TemplateSelect (Template templateSelectThumb32)
open Adbi.ArmTemplate (Code templateGetHandler armCode fieldValue)
open Adbi.ArmTargetProofs (architecturalValue encodes Decoded fieldValue_iff_decoded)
open Adbi.ArmFillProofs Adbi.T32FillProofs Adbi.ArmOolProofs

/-- The templates for branches and literals of 32-bit Thumb. -/
def wideTemplate : Template → Bool
  | .adrT2 | .adrT3 | .ldrLitT2 | .bT3 | .bT4 | .blT1 | .blxT2 => true
  | _ => false

/-- The offset of a branch that is taken has been decoded. -/
def TargetKept (s : State) (w : Word) : Template → Prop
  | .bT3 => condHolds (field w 22 4) s.flags = true → Decoded w .bT3Target
  | .bT4 => Decoded w .bT4Target
  | .blT1 => Decoded w .blT1Target
  | .blxT2 => Decoded w .blxT2Target
  | _ => True

/-- The state before a Thumb instruction, or the code for it, at an address. -/
def thumbAt (s : State) (pc : Word) : State := { s with pc := pc, thumb := true }

/-! ## Instructions of the templates -/

section Steps

variable {s s' : State} {base w : Word} {offset : Nat}

/-- The instruction stands in the code, the high halfword first. -/
structure Fetched (s : State) (base : Word) (offset : Nat) (w : Word) : Prop where
  high : s.loadHalf (place base offset) = field w 16 16
  rest : s.loadHalf (place base (offset + 2)) = field w 0 16
  long : isWide (field w 16 16) = true

private theorem fetched_step (fetched : Fetched s base offset w) (thumb : s.thumb = true) :
    step (s.goto (place base offset)) = execWide w (s.goto (place base offset)) := by
  have next : place base offset + 2#32 = place base (offset + 2) := place_add base offset 2
  simp only [step, goto_thumb, thumb, goto_pc, goto_loadHalf, fetched.high, next, fetched.rest,
    fetched.long, Bool.and_self, ↓reduceIte,
    halves]

private theorem fetched_loadsPc (fetched : Fetched s base offset w) (thumb : s.thumb = true) :
    loadsPc (s.goto (place base offset)) = wordMatches w "11111000-10111111111------------" := by
  have next : place base offset + 2#32 = place base (offset + 2) := place_add base offset 2
  simp only [loadsPc, goto_thumb, thumb, goto_pc, goto_loadHalf, fetched.high, next, fetched.rest,
    fetched.long, Bool.true_and, ↓reduceIte,
    halves]

private theorem run_on (fetched : Fetched s base offset w) (thumb : s.thumb = true)
    (stays : wordMatches w "11111000-10111111111------------" = false)
    (ok : execWide w (s.goto (place base offset)) = some s') (k : Nat) :
    runOol (k + 1) (s.goto (place base offset)) = runOol k s' :=
  runUntil_on ((fetched_step fetched thumb).trans ok) ((fetched_loadsPc fetched thumb).trans stays) k

/-- `ldr.w` of a register from `distance` bytes after what is read from the pc. -/
structure WideLoad (w : Word) (t : BitVec 4) (distance : Nat) : Prop where
  has : wordMatches w loadLiteralWidePattern = true
  up : w.getLsbD 23 = true
  target : field w 12 4 = t
  offset : (field w 0 12).setWidth 32 = BitVec.ofNat 32 distance
  whole : distance % 4 = 0

private theorem WideLoad.leaves {t : BitVec 4} {distance : Nat} (shape : WideLoad w t distance) :
    wordMatches w "11111000-10111111111------------" = decide (t = 15#4) := by
  by_cases pc : t = 15#4
  · subst pc
    rw [decide_eq_true rfl]
    apply matches_of_known [Pattern.bits loadLiteralWidePattern, Bits.ofField 12 15#4]
    · simpa [← field_eq_iff, shape.target] using wordMatches_bits.mp shape.has
    · decide
  · rw [decide_eq_false pc]
    by_contra all
    rw [Bool.not_eq_false] at all
    have fifteen : field w 12 4 = 15#4 := field_of_matches all 12 4 (by decide)
    exact pc (shape.target.symm.trans fifteen)

private theorem execWide_literal (has : wordMatches w loadLiteralWidePattern = true) (s : State) :
    execWide w s = execLoadLiteralWide w s := by
  rw [execWide, decodeWith, wideInstructions, List.find?_cons, has]
  rfl

/-- What the load does, where `start` is the offset of the word that is at the pc or goes on there. -/
private theorem exec_literal {t : BitVec 4} {distance : Nat} (shape : WideLoad w t distance)
    (start : Nat) (thumb : s.thumb = true)
    (near : offset + 4 = start ∨ offset + 4 = start + 2) (aligned : (place base start).toNat % 4 = 0) :
    execWide w (s.goto (place base offset)) =
      if t = 15#4 then s.bxWritePc (s.load (place base (start + distance)))
      else some ((s.writeR t (s.load (place base (start + distance)))).goto
        (place base (offset + 4))) := by
  have pc : align (s.goto (place base offset)).readPc = place base start := by
    rw [readPc_thumb (s := s.goto (place base offset)) thumb, goto_pc,
      show place base offset + 4#32 = place base (offset + 4) from place_add base offset 4]
    rcases near with here | before
    · rw [here, align_of_aligned aligned]
    · rw [before, ← place_add, align_near aligned]
  have inside : place base (start + distance) &&& 3#32 = 0#32 := by
    rw [and_three_iff, ← place_add, BitVec.toNat_add, BitVec.toNat_ofNat]
    have := shape.whole
    omega
  have next : place base offset + 4#32 = place base (offset + 4) := place_add base offset 4
  rw [execWide_literal shape.has]
  simp only [execLoadLiteralWide, shape.target, shape.up, shape.offset, pc, place_add, inside,
    ↓reduceIte, goto_load, goto_pc, next]
  rfl

/-- A load of the pc leaves the template. -/
private theorem run_leave {distance : Nat} (shape : WideLoad w 15#4 distance)
    (fetched : Fetched s base offset w) (start : Nat)
    (thumb : s.thumb = true) (near : offset + 4 = start ∨ offset + 4 = start + 2)
    (aligned : (place base start).toNat % 4 = 0) (k : Nat) :
    runOol (k + 1) (s.goto (place base offset)) =
      s.bxWritePc (s.load (place base (start + distance))) := by
  have last : loadsPc (s.goto (place base offset)) = true :=
    (fetched_loadsPc fetched thumb).trans shape.leaves
  exact (runUntil_leave last k).trans
    ((fetched_step fetched thumb).trans ((exec_literal shape start thumb near aligned).trans
      (if_pos rfl)))

/-- A load of another register goes on. -/
private theorem run_load {t : BitVec 4} {distance : Nat} (shape : WideLoad w t distance)
    (other : t ≠ 15#4)
    (fetched : Fetched s base offset w) (start : Nat) (thumb : s.thumb = true)
    (near : offset + 4 = start ∨ offset + 4 = start + 2)
    (aligned : (place base start).toNat % 4 = 0) (k : Nat) :
    runOol (k + 1) (s.goto (place base offset)) =
      runOol k ((s.writeR t (s.load (place base (start + distance)))).goto (place base (offset + 4))) :=
  run_on fetched thumb (shape.leaves.trans (decide_eq_false other))
    ((exec_literal shape start thumb near aligned).trans (if_neg other)) k

end Steps

/-! ## The templates -/

section Templates

variable {s s' : State} {base w : Word} {code : Code} {handler origin target : Word}

private theorem fetched_at (loaded : Loaded s base code) (i : Nat)
    (high : code[i]? = some (field w 16 16))
    (rest : code[i + 1]? = some (field w 0 16)) (long : isWide (field w 16 16) = true) :
    Fetched s base (2 * i) w :=
  ⟨loaded_half loaded i high, loaded_half loaded (i + 1) rest, long⟩

private theorem wideLoad_loading {d : Word} {t : BitVec 4} {distance : Nat}
    (shape : WideLoad d t distance) (w : Word) (low : Nat) :
    WideLoad (loadingWide w low d) (field w low 4) distance := by
  obtain ⟨has, up, -, offset, whole⟩ := shape
  refine ⟨?_, ?_, ?_, ?_, whole⟩
  · rwa [loadingWide, matches_patch (by decide)]
  · rwa [loadingWide, getLsbD_patch, show (0x0000f000#32).getLsbD 23 = false by decide,
      if_neg Bool.false_ne_true]
  · rw [loadingWide, field_patch_inside 12 4 (by decide), field_moved w low 4 12 (by decide)]
  · rwa [loadingWide, field_patch_outside 0 12 (by decide) (by decide)]

private theorem loading_long {d : Word} (long : isWide (field d 16 16) = true) (low : Nat) :
    isWide (field (loadingWide w low d) 16 16) = true := by
  rwa [loadingWide, field_patch_outside 16 16 (by decide) (by decide)]

private theorem wideLoad_pc_four : WideLoad 0xf8dff004#32 15#4 4 := by
  constructor <;> decide

private theorem wideLoad_pc_eight : WideLoad 0xf8dff008#32 15#4 8 := by
  constructor <;> decide

private theorem wideLoad_lr : WideLoad 0xf8dfe00c#32 lr 12 := by
  constructor <;> decide

/-- `adr.w`: the address is loaded. -/
private theorem run_adr (value : Word) (thumb : s.thumb = true)
    (aligned : s.pc.toNat % 2 = 0 ∧ base.toNat % 4 = 2)
    (other : field w 8 4 ≠ 15#4)
    (loaded : Loaded s base (wide (loadingWide w 8 0xf8df0008#32) ++ [0xf8df#16, 0xf008#16, 0xdede#16] ++
      armCode [value, (s.pc + 4#32) ||| 1#32, handler, origin] 0)) (k : Nat) :
    runOol (k + 2) (s.goto (place base 0)) = some (nextWide (s.writeR (field w 8 4) value)) := by
  have shape : WideLoad 0xf8df0008#32 0#4 8 := by constructor <;> decide
  have still : (s.writeR (field w 8 4) value).thumb = true := thumb
  have first := fetched_at loaded 0 (w :=
    loadingWide w 8 0xf8df0008#32) rfl rfl (loading_long (by decide) 8)
  have last := fetched_at (w := 0xf8dff008#32) (s :=
    s.writeR (field w 8 4) value) loaded 2 rfl rfl (by decide)
  have loads := run_load (wideLoad_loading shape w 8) other first 2 thumb (.inr rfl)
    (place_thumb aligned.2 rfl) (k + 1)
  rw [show s.load (place base (2 + 8)) = value from loaded_constant loaded (k := 0) rfl] at loads
  have jump := run_leave wideLoad_pc_eight last 6 thumb (.inr rfl) (place_thumb aligned.2 rfl) k
  rw [writeR_load, show s.load (place base (6 + 8)) = _ from loaded_constant loaded (k := 1) rfl,
    leave_thumb still (even_sum aligned.1 rfl)] at jump
  exact loads.trans jump

private theorem execWide_load (has : wordMatches w loadWidePattern = true)
    (other : field w 16 4 ≠ 15#4) (s : State) :
    execWide w s = execLoadWide w s := by
  have literal : wordMatches w loadLiteralWidePattern = false := by
    by_contra all
    exact other (field_of_matches (Bool.not_eq_false _ ▸ all) 16 4 (by decide))
  rw [execWide, decodeWith, wideInstructions, List.find?_cons, literal, List.find?_cons, has]
  rfl

/-- The load through the register that has been loaded. -/
private theorem exec_through (s : State) (other : field w 12 4 ≠ 15#4) (a : Word) :
    execWide (loadingWide w 12 (loadWideBase w)) (s.goto a) =
      some ((s.writeR (field w 12 4) (s.load (s.readR (field w 12 4)))).goto (a + 4#32)) := by
  have has : wordMatches (loadingWide w 12 (loadWideBase w)) loadWidePattern = true := by
    rw [loadingWide, matches_patch (by decide), loadWideBase, matches_patch (by decide)]
    decide
  have through : field (loadingWide w 12 (loadWideBase w)) 16 4 = field w 12 4 := by
    rw [loadingWide, field_patch_outside 16 4 (by decide) (by decide), loadWideBase,
      field_patch_inside 16 4 (by decide),
      field_moved w 12 4 16 (by decide)]
  have transferred : field (loadingWide w 12 (loadWideBase w)) 12 4 = field w 12 4 := by
    rw [loadingWide, field_patch_inside 12 4 (by decide), field_moved w 12 4 12 (by decide)]
  have imm : field (loadingWide w 12 (loadWideBase w)) 0 12 = 0#12 := by
    rw [loadingWide, field_patch_outside 0 12 (by decide) (by decide), loadWideBase,
      field_patch_outside 0 12 (by decide) (by decide)]
    decide
  have register : (s.goto a).readR (field w 12 4) = s.readR (field w 12 4) := by
    rw [State.readR, State.readR, if_neg other, if_neg other, goto_r]
  rw [execWide_load has (by rwa [through])]
  simp only [execLoadWide, through, transferred, imm, register, if_neg other, nextWide, writeR_pc,
    goto_pc, goto_load]
  rw [show ((0#12).setWidth 32 : Word) = 0#32 from rfl, BitVec.add_zero]
  rfl

/-- `ldr.w`: first the address is loaded, and then the word that stands there. -/
private theorem run_ldrLitT2 (value : Word) (thumb : s.thumb = true)
    (aligned : s.pc.toNat % 2 = 0 ∧ base.toNat % 4 = 2)
    (other : field w 12 4 ≠ 15#4)
    (loaded : Loaded s base (wide (loadingWide w 12 0xf8df000c#32) ++
      wide (loadingWide w 12 (loadWideBase w)) ++
      [0xf8df#16, 0xf008#16, 0xdede#16] ++ armCode [value, (s.pc + 4#32) ||| 1#32, handler,
        origin] 0)) (k : Nat) :
    runOol (k + 3) (s.goto (place base 0)) =
      some (nextWide (s.writeR (field w 12 4) (s.load value))) := by
  have shape : WideLoad 0xf8df000c#32 0#4 12 := by constructor <;> decide
  have long : isWide (field (loadWideBase w) 16 16) = true := decide_eq_true (loadWideBase_long w)
  have still (v : Word) : (s.writeR (field w 12 4) v).thumb = true := thumb
  have first := fetched_at loaded 0 (w :=
    loadingWide w 12 0xf8df000c#32) rfl rfl (loading_long (by decide) 12)
  have second := fetched_at (w := loadingWide w 12 (loadWideBase w)) (s :=
    s.writeR (field w 12 4) value) loaded 2 rfl rfl
    (loading_long long 12)
  have last := fetched_at (w := 0xf8dff008#32) (s :=
    s.writeR (field w 12 4) (s.load value)) loaded 4 rfl rfl (by decide)
  have loads := run_load (wideLoad_loading shape w 12) other first 2 thumb (.inr rfl)
    (place_thumb aligned.2 rfl) (k + 2)
  rw [show s.load (place base (2 + 12)) = value from loaded_constant loaded (k := 0) rfl] at loads
  have stays : wordMatches (loadingWide w 12 (loadWideBase w)) "11111000-10111111111------------" =
      false := by
    by_contra all
    have fifteen : field (loadingWide w 12 (loadWideBase w)) 12 4 = 15#4 :=
      field_of_matches (Bool.not_eq_false _ ▸ all) 12 4 (by decide)
    rw [loadingWide, field_patch_inside 12 4 (by decide), field_moved w 12 4 12 (by decide)] at fifteen
    exact other fifteen
  have through := exec_through (w := w) (s.writeR (field w 12 4) value) other (place base 4)
  rw [readR_writeR other, writeR_load, writeR_writeR,
    show place base 4 + 4#32 = place base 8 from place_add base 4 4] at through
  have jump := run_leave wideLoad_pc_eight last 10 thumb (.inr rfl) (place_thumb aligned.2 rfl) k
  rw [writeR_load, show s.load (place base (10 + 8)) = _ from loaded_constant loaded (k := 1) rfl,
    leave_thumb (still _) (even_sum aligned.1 rfl)] at jump
  exact loads.trans ((run_on second thumb stays through (k + 1)).trans jump)

/-! ### Branches -/

/-- What the conditional branch over the first jump does. -/
private theorem exec_branchOver (thumb : s.thumb = true) (aligned : base.toNat % 4 = 2)
    (conditional : field w 23 3 ≠ 7#3) :
    execWide (branchOverWide w) (s.goto (place base 0)) =
      some (s.goto (place base (if condHolds (field w 22 4) s.flags then 8 else 4))) := by
  have still : wordMatches (branchOverWide w) condBranchWidePattern = true := by
    rw [branchOverWide, matches_patch (by decide)]
    decide
  have cond : field (branchOverWide w) 22 4 = field w 22 4 := by
    rw [branchOverWide, field_patch_inside 22 4 (by decide), field_moved w 22 4 22 (by decide)]
  have kind : field (branchOverWide w) 23 3 = field w 23 3 := by
    have part (v : Word) : field v 23 3 = field (field v 22 4) 1 3 := by
      ext i h
      simp [field]
      grind
    rw [part, cond, ← part]
  have offset : conditionalOffset (branchOverWide w) = 4#32 := by
    have outside (low k : Nat) (fits : low + k ≤ 32) (apart : field 0x03c00000#32 low k = 0) :
        field (branchOverWide w) low k = field 0xf0008002#32 low k :=
        field_patch_outside low k fits apart
    simp only [conditionalOffset, outside 26 1 (by decide) (by decide),
      outside 11 1 (by decide) (by decide),
      outside 13 1 (by decide) (by decide), outside 16 6 (by decide) (by decide),
      outside 0 11 (by decide) (by decide)]
    decide
  have even : (place base 8).toNat % 2 = 0 := by
    rw [place, BitVec.toNat_add, BitVec.toNat_ofNat]
    omega
  have sum : (s.goto (place base 0)).readPc + 4#32 = place base 8 := by
    rw [readPc_thumb (s := s.goto (place base 0)) thumb, goto_pc,
      show place base 0 + 4#32 = place base 4 from place_add base 0 4]
    exact place_add base 4 4
  rw [execWide_class still (show _ = [(condBranchWidePattern, _)] from rfl), execCondBranchWide,
    kind, if_neg conditional, cond, goto_flags]
  by_cases holds : condHolds (field w 22 4) s.flags = true
  · rw [if_pos holds, if_pos holds, offset, sum, State.branchWritePc, goto_thumb, thumb, if_pos rfl,
      even_of_even even, goto_goto]
  · rw [if_neg holds, if_neg holds, nextWide, goto_goto, goto_pc,
      show place base 0 + 4#32 = place base 4 from place_add base 0 4]

private theorem run_bT3 (thumb : s.thumb = true) (aligned : s.pc.toNat % 2 = 0 ∧ base.toNat % 4 = 2)
    (conditional : field w 23 3 ≠ 7#3)
    (loaded : Loaded s base (wide (branchOverWide w) ++ [0xf8df#16, 0xf008#16, 0xf8df#16, 0xf008#16,
      0xdede#16] ++
      armCode [(s.pc + 4#32) ||| 1#32, target, handler, origin] 0)) (k : Nat) :
    runOol (k + 2) (s.goto (place base 0)) =
      if condHolds (field w 22 4) s.flags then s.bxWritePc target else some (nextWide s) := by
  have long : isWide (field (branchOverWide w) 16 16) = true := by
    have bound : 0xf000 ≤ (field (branchOverWide w) 16 16).toNat := by
      have still : field (field (branchOverWide w) 16 16) 10 6 = 0b111100#6 := by
        have part : field (branchOverWide w) 26 6 = 0b111100#6 := by
          rw [branchOverWide, field_patch_outside 26 6 (by decide) (by decide)]
          decide
        rw [← part]
        ext i h
        simp [field, ← Nat.add_assoc]
        grind
      have := ArmPatchProofs.toNat_high 10 rfl still
      simp only [BitVec.toNat_ofNat] at this
      omega
    exact decide_eq_true (Nat.le_trans (show (0xe800#16).toNat ≤ 0xf000 by decide) bound)
  have first := fetched_at loaded 0 (w := branchOverWide w) rfl rfl long
  have second := fetched_at (w := 0xf8dff008#32) loaded 2 rfl rfl (by decide)
  have third := fetched_at (w := 0xf8dff008#32) loaded 4 rfl rfl (by decide)
  have stays : wordMatches (branchOverWide w) "11111000-10111111111------------" = false := by
    have still : wordMatches (branchOverWide w) condBranchWidePattern = true := by
      rw [branchOverWide, matches_patch (by decide)]
      decide
    exact not_matches_of_conflict still (by decide)
  have branch := run_on first thumb stays (exec_branchOver thumb aligned.2 conditional) (k + 1)
  by_cases holds : condHolds (field w 22 4) s.flags = true
  · rw [if_pos holds] at branch ⊢
    have jump := run_leave wideLoad_pc_eight third 10 thumb (.inr rfl) (place_thumb aligned.2 rfl) k
    rw [show s.load (place base (10 + 8)) = target from loaded_constant loaded (k := 1) rfl] at jump
    exact branch.trans jump
  · rw [if_neg holds] at branch ⊢
    have jump := run_leave wideLoad_pc_eight second 6 thumb (.inr rfl) (place_thumb aligned.2 rfl) k
    rw [show s.load (place base (6 + 8)) = _ from loaded_constant loaded (k := 0) rfl,
      leave_thumb thumb (even_sum aligned.1 rfl)] at jump
    exact branch.trans jump

private theorem run_bT4 (thumb : s.thumb = true) (aligned : base.toNat % 4 = 2)
    (loaded : Loaded s base ([0xf8df#16, 0xf004#16, 0xdede#16] ++ armCode [target, handler,
      origin] 0)) (k : Nat) :
    runOol (k + 1) (s.goto (place base 0)) = s.bxWritePc target := by
  have first := fetched_at (w := 0xf8dff004#32) loaded 0 rfl rfl (by decide)
  have jump := run_leave wideLoad_pc_four first 2 thumb (.inr rfl) (place_thumb aligned rfl) k
  rwa [show s.load (place base (2 + 4)) = target from loaded_constant loaded (k := 0) rfl] at jump

/-- `bl` and `blx`. -/
private theorem run_link (thumb : s.thumb = true) (aligned : base.toNat % 4 = 2)
    (loaded : Loaded s base ([0xf8df#16, 0xe00c#16, 0xf8df#16, 0xf004#16, 0xdede#16] ++
      armCode [target, (s.pc + 4#32) ||| 1#32, handler, origin] 0)) (k : Nat) :
    runOol (k + 2) (s.goto (place base 0)) = (linked s).bxWritePc target := by
  have is : linked s = s.writeR lr ((s.pc + 4#32) ||| 1#32) := by rw [linked, readPc_thumb thumb]
  have still : (linked s).thumb = true := thumb
  have first := fetched_at (w := 0xf8dfe00c#32) loaded 0 rfl rfl (by decide)
  have second := fetched_at (w := 0xf8dff004#32) (s := linked s) loaded 2 rfl rfl (by decide)
  have loads := run_load wideLoad_lr (by decide) first 2 thumb (.inr rfl)
    (place_thumb aligned rfl) (k + 1)
  rw [show s.load (place base (2 + 12)) = _ from loaded_constant loaded (k := 1) rfl, ← is] at loads
  have jump := run_leave wideLoad_pc_four second 6 still (.inr rfl) (place_thumb aligned rfl) k
  rw [show (linked s).load (place base (6 + 4)) = target from loaded_constant (s :=
    linked s) loaded (k := 0) rfl] at jump
  exact loads.trans jump

end Templates

/-! ## Targets -/

/-- Different values of the pc lead to different states. -/
theorem bxWritePc_eq_iff {s t : State} {v v' : Word} (ok : s.bxWritePc v = some t) :
    s.bxWritePc v' = some t ↔ v' = v := by
  have value {x : Word} (ran : s.bxWritePc x = some t) :
      x = t.pc ||| (if t.thumb then 1#32 else 0#32) := by
    unfold State.bxWritePc at ran
    split at ran
    · rename_i odd
      obtain rfl := Option.some.inj ran
      have one : ∀ i < 32, (1#32).getLsbD i = decide (i = 0) := by decide
      have rest : ∀ i < 32, (~~~1#32).getLsbD i = !decide (i = 0) := by decide
      apply BitVec.eq_of_getLsbD_eq
      intro i inside
      rw [if_pos rfl, BitVec.getLsbD_or, BitVec.getLsbD_and, one i inside, rest i inside]
      by_cases zero : i = 0
      · simp [zero, odd]
      · simp [zero]
    · split at ran
      · cases ran
      · obtain rfl := Option.some.inj ran
        simp
  constructor
  · intro ran
    exact (value ran).trans (value ok).symm
  · rintro rfl
    exact ok

/-! ## All templates -/

section

variable {w : Word} {template : Template} {s s' : State} {pc base handler : Word} {code : Code}

private theorem encoded_of_selected (selected : templateSelectThumb32 w = .template template) :
    CompletionProofs.thumb32Encoded w (.template template) := by
  rw [← selected]
  refine CompletionProofs.thumb32_encoded ?_
  by_contra invalid
  rw [templateSelectThumb32, if_pos (by simpa using invalid)] at selected
  cases selected

/-- A template that does what the instruction does. -/
private theorem ends_of_run {n : Nat}
    (run : ∀ k, runOol (k + n) ((thumbAt s pc).goto (place base 0)) = some s') :
    ∃ m, runOol m (thumbAt s base) = some s' := by
  have start : thumbAt s base = (thumbAt s pc).goto (place base 0) := by
    rw [place, BitVec.add_zero]
    rfl
  exact ⟨0 + n, start ▸ run 0⟩

/-- A template that jumps to the value of a field, which is the target if its offset has been decoded. -/
private theorem ends_iff_decoded {n : Nat} {target : ArmTemplate.Field} {value : Word} {t : State}
    (decoded : fieldValue (wideValues pc handler w) target = some value)
    (encoded : encodes w target = true)
    (run : ∀ k, runOol (k + n) ((thumbAt s pc).goto (place base 0)) = t.bxWritePc value)
    (goes : t.bxWritePc (architecturalValue pc w target) = some s') :
    (∃ m, runOol m (thumbAt s base) = some s') ↔ Decoded w target := by
  have start : thumbAt s base = (thumbAt s pc).goto (place base 0) := by
    rw [place, BitVec.add_zero]
    rfl
  have known := fieldValue_iff_decoded (wideValues pc handler w) target encoded
  rw [decoded, Option.some.injEq] at known
  rw [start, ← known, ← bxWritePc_eq_iff goes]
  exact runUntil_ends_iff run

private theorem adr_preserves (up : Bool) (value : Word)
    (aligned : pc.toNat % 2 = 0 ∧ base.toNat % 4 = 2)
    (loaded : Loaded s base (wide (loadingWide w 8 0xf8df0008#32) ++ [0xf8df#16, 0xf008#16, 0xdede#16] ++
      armCode [value, (pc + 4#32) ||| 1#32, handler, pc ||| 1#32] 0))
    (ran : execAdrWide up w (thumbAt s pc) = some s')
    (is : value = if up then align (pc + 4#32) + (field w 26 1 ++ field w 12 3 ++
      field w 0 8).setWidth 32
      else align (pc + 4#32) - (field w 26 1 ++ field w 12 3 ++ field w 0 8).setWidth 32) :
    ∃ m, runOol m (thumbAt s base) = some s' := by
  rw [execAdrWide, readPc_thumb rfl] at ran
  split at ran
  · cases ran
  · rename_i known
    obtain rfl := Option.some.inj ran
    have run := run_adr (s := thumbAt s pc) value rfl aligned (fun fifteen =>
      known (.inr fifteen)) loaded
    rw [is] at run
    exact ends_of_run run

private theorem branch_even (start : Word) (even : start.toNat % 2 = 0) {k : Nat} (x : BitVec k) :
    (start + 4#32 + (x ++ 0#1).signExtend 32).toNat % 2 = 0 :=
  even_sum (even_sum even rfl) (signed_offset x 32)

/-- A `blx` that has an effect. -/
private theorem blx_of_ran (has : wordMatches w "11110-----------11-0------------" = true)
    (ran : execWide w s = some s') :
    wordMatches w blxPattern = true := by
  by_contra odd
  have decoded : decodeWith wideInstructions w = none := by
    rw [decodeWith_filter has, show (wideInstructions.filter fun entry => !conflict 32 _ entry.1) =
      [(blxPattern, _)] from rfl]
    simp [decodeWith, odd]
  rw [execWide, decoded] at ran
  cases ran

private theorem blx_aligned (pc : Word) (even : w.getLsbD 0 = false) :
    (align (pc + 4#32) + branchOffset w).toNat % 4 = 0 := by
  have start : (align (pc + 4#32)).toNat % 2 ^ 2 = 0 := by
    refine aligned_of_bits fun i inside => ?_
    interval_cases i <;> simp [align]
  have offset : (branchOffset w).toNat % 2 ^ 2 = 0 := by
    refine aligned_of_bits fun i inside => ?_
    simp only [branchOffset, BitVec.getLsbD_signExtend, BitVec.getLsbD_append]
    interval_cases i
    · rfl
    · simpa [field] using even
  rw [BitVec.toNat_add]
  omega

private theorem leave_blx {target : Word} (aligned : target.toNat % 4 = 0) :
    s.bxWritePc target = some (({ s with thumb := false } : State).branchWritePc target) := by
  rw [bxWritePc_arm aligned, State.branchWritePc, if_neg Bool.false_ne_true, align_of_aligned aligned]
  rfl

/-- The templates for branches and literals of 32-bit Thumb do what the instruction
does at its own address, exactly if the offset of a branch that is taken has been
decoded. -/
theorem wide_templates_preserve_iff (mapped : wideTemplate template = true)
    (selected : templateSelectThumb32 w = .template template)
    (aligned : pc.toNat % 2 = 0 ∧ base.toNat % 4 = 2)
    (filled : templateGetHandler template pc handler w .thumb2 = some code)
    (loaded : Loaded s base code) (ran : execWide w (thumbAt s pc) = some s') :
    (∃ n, runOol n (thumbAt s base) = some s') ↔ TargetKept s w template := by
  have encoded := encoded_of_selected selected
  cases template with
  | adrT2 =>
    obtain rfl := Option.some.inj ((filled_adrT2 pc handler w encoded).symm.trans filled)
    rw [execWide_class encoded (show _ = [(adrDownPattern, _)] from rfl)] at ran
    exact iff_of_true (adr_preserves false _ aligned loaded ran rfl) trivial
  | adrT3 =>
    obtain rfl := Option.some.inj ((filled_adrT3 pc handler w encoded).symm.trans filled)
    rw [execWide_class encoded (show _ = [(adrUpPattern, _)] from rfl)] at ran
    exact iff_of_true (adr_preserves true _ aligned loaded ran rfl) trivial
  | ldrLitT2 =>
    obtain ⟨ldr, register⟩ := encoded
    obtain rfl := Option.some.inj ((filled_ldrLitT2 pc handler w ldr).symm.trans filled)
    have other : field w 12 4 ≠ 15#4 := beq_eq_false_iff_ne.mp register
    have run := run_ldrLitT2 (s := thumbAt s pc) _ rfl aligned other loaded
    rw [execWide_literal ldr, execLoadLiteralWide, readPc_thumb rfl] at ran
    simp only [if_neg other] at ran
    obtain rfl := Option.some.inj ran
    exact iff_of_true (ends_of_run run) trivial
  | bT3 =>
    have b : wordMatches w condBranchWidePattern = true := encoded
    rw [execWide_class b (show _ = [(condBranchWidePattern, _)] from rfl), execCondBranchWide] at ran
    split at ran
    · cases ran
    rename_i conditional
    have known : (fieldValue (wideValues pc handler w) .bT3Target).isSome = true := by
      simp only [fieldValue, show wordMatches w "11110-----------10-0------------" = true from b,
        ↓reduceIte, Option.isSome_some]
    obtain ⟨target, decoded⟩ := Option.isSome_iff_exists.mp known
    obtain rfl := Option.some.inj ((filled_bT3 pc handler b decoded).symm.trans filled)
    have run := run_bT3 (s := thumbAt s pc) rfl aligned conditional loaded
    have taken : encodes w .bT3Target = true := by
      have other : wordMatches w "11110-111-------10-0------------" = false := by
        by_contra all
        exact conditional (field_of_matches (Bool.not_eq_false _ ▸ all) 23 3 (by decide))
      rw [encodes, show wordMatches w "11110-----------10-0------------" = true from b, other]
      rfl
    by_cases holds : condHolds (field w 22 4) s.flags = true
    · simp only [show (thumbAt s pc).flags = s.flags from rfl, if_pos holds] at run ran
      have kept : TargetKept s w .bT3 ↔ Decoded w .bT3Target :=
        ⟨fun kept => kept holds, fun decoded _ => decoded⟩
      rw [kept]
      refine ends_iff_decoded decoded taken run ?_
      rw [← ran, readPc_thumb rfl]
      exact leave_branch rfl (branch_even pc aligned.1 _)
    · simp only [show (thumbAt s pc).flags = s.flags from rfl, if_neg holds] at run ran
      obtain rfl := Option.some.inj ran
      exact iff_of_true (ends_of_run run) fun held => absurd held holds
  | bT4 =>
    obtain ⟨target, decoded⟩ : ∃ target, fieldValue (wideValues pc handler w) .bT4Target =
        some target := ⟨_, rfl⟩
    obtain rfl := Option.some.inj ((filled_bT4 pc handler decoded).symm.trans filled)
    rw [execWide_class encoded (show _ = [(branchWidePattern, _)] from rfl)] at ran
    refine ends_iff_decoded decoded encoded (run_bT4 (s := thumbAt s pc) rfl aligned.2 loaded) ?_
    rw [← ran, execBranchWide, readPc_thumb rfl]
    exact leave_branch rfl (branch_even pc aligned.1 _)
  | blT1 =>
    obtain ⟨target, decoded⟩ : ∃ target, fieldValue (wideValues pc handler w) .blT1Target =
        some target := ⟨_, rfl⟩
    obtain rfl := Option.some.inj ((filled_blT1 pc handler decoded).symm.trans filled)
    rw [execWide_class encoded (show _ = [(blPattern, _)] from rfl)] at ran
    refine ends_iff_decoded decoded encoded (run_link (s := thumbAt s pc) rfl aligned.2 loaded) ?_
    rw [← ran, execBl, readPc_thumb rfl]
    exact leave_branch rfl (branch_even pc aligned.1 _)
  | blxT2 =>
    have blx := blx_of_ran encoded ran
    have even : w.getLsbD 0 = false := field_bit_iff.mp (field_of_matches blx 0 1 (by decide))
    have has : wordMatches w "11110-----------11--------------" = true :=
      matches_of_inside encoded (by decide)
    have known : (fieldValue (wideValues pc handler w) .blxT2Target).isSome = true := by
      simp only [fieldValue, has, even, ArmTargetProofs.blx_target_aligned pc even, Bool.not_false,
        Bool.and_true, decide_true, ↓reduceIte,
        Option.isSome_some]
    obtain ⟨target, decoded⟩ := Option.isSome_iff_exists.mp known
    obtain rfl := Option.some.inj ((filled_blxT2 pc handler decoded).symm.trans filled)
    rw [execWide_class blx (show _ = [(blxPattern, _)] from rfl)] at ran
    refine ends_iff_decoded decoded blx (run_link (s := thumbAt s pc) rfl aligned.2 loaded) ?_
    rw [← ran, execBlxWide, readPc_thumb rfl]
    exact leave_blx (blx_aligned pc even)
  | _ => cases mapped

end

/-- The code of the template for `bl` at 0x8000, and a state that has it at 0x9002. -/
def blCode (target : Word) : Code :=
  [0xf8df#16, 0xe00c#16, 0xf8df#16, 0xf004#16, 0xdede#16] ++ armCode [target, 0x8005#32,
    0xa000#32, 0x8001#32] 0

def blState (target : Word) : State where
  r := fun _ => 0x7000#32
  pc := 0x8000#32
  thumb := true
  flags := ⟨false, false, false, false⟩
  memory := fun a =>
    let offset := (a - 0x9002#32).toNat
    field ((blCode target).getD (offset / 2) 0#16) (8 * (offset % 2)) 8

/-- A `bl` ahead by four bytes, and one ahead by twelve MiB. -/
theorem near_bl_preserved_far_bl_not :
    (∃ s' n, execWide 0xf000f802#32 (thumbAt (blState 0x8009#32) 0x8000#32) = some s' ∧
      runOol n (thumbAt (blState 0x8009#32) 0x9002#32) = some s') ∧
    ∃ s', execWide 0xf000d000#32 (thumbAt (blState 0xffc08005#32) 0x8000#32) = some s' ∧
      ¬ ∃ n, runOol n (thumbAt (blState 0xffc08005#32) 0x9002#32) = some s' := by
  have loaded_near : Loaded (blState 0x8009#32) 0x9002#32 (blCode 0x8009#32) := by
    show ∀ i, (h : i < 13) → _
    decide
  have loaded_far : Loaded (blState 0xffc08005#32) 0x9002#32 (blCode 0xffc08005#32) := by
    show ∀ i, (h : i < 13) → _
    decide
  have near := filled_blT1 0x8000#32 0xa000#32
    (show fieldValue (wideValues 0x8000#32 0xa000#32 0xf000f802#32) .blT1Target =
      some 0x8009#32 by decide)
  have far := filled_blT1 0x8000#32 0xa000#32
    (show fieldValue (wideValues 0x8000#32 0xa000#32 0xf000d000#32) .blT1Target =
      some 0xffc08005#32 by decide)
  obtain ⟨s, ran⟩ := Option.isSome_iff_exists.mp
    (show (execWide 0xf000f802#32 (thumbAt (blState 0x8009#32) 0x8000#32)).isSome = true by decide)
  obtain ⟨t, ran'⟩ := Option.isSome_iff_exists.mp
    (show (execWide 0xf000d000#32 (thumbAt (blState 0xffc08005#32) 0x8000#32)).isSome = true by decide)
  have kept := wide_templates_preserve_iff rfl (by decide) (by decide) near loaded_near ran
  have lost := wide_templates_preserve_iff rfl (by decide) (by decide) far loaded_far ran'
  obtain ⟨n, done⟩ := kept.mpr (show (0xf000f802#32).getLsbD 13 = true by decide)
  exact ⟨⟨s, n, ran, done⟩, t, ran',
    fun ended => absurd (lost.mp ended) (show ¬ (0xf000d000#32).getLsbD 13 = true by decide)⟩

end Adbi.T32OolProofs
