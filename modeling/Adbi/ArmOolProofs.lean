import Adbi.A32
import Adbi.ArmFillProofs

/-! The templates of `arch/arm` for branches of ARM and for branches and literals of
16-bit Thumb do what the instructions do at their own addresses. The template for
`blx` saves the register on the stack, which it cannot do for the stack pointer. -/
namespace Adbi.ArmOolProofs
open Adbi.Lib Adbi.A32
open Adbi.A64 (condHolds)
open Adbi.TemplateSelect (Template templateSelectArm templateSelectThumb)
open Adbi.ArmTemplate (Kind Code templateGetHandler armCode)
open Adbi.ArmPatchProofs (field_setWidth toNat_high wordMatches_setWidth)
open Adbi.ArmTargetProofs (architecturalValue encodes)
open Adbi.ArmFillProofs

/-- An instruction of the traced program. -/
inductive Insn where
  | arm (w : Word)
  | thumb (w : BitVec 16)

namespace Insn

def kind : Insn → Kind
  | .arm _ => .arm
  | .thumb _ => .thumb

def word : Insn → Word
  | .arm w => w
  | .thumb w => w.setWidth 32

/-- `template_select`. -/
def selection : Insn → TemplateSelect.Selection
  | .arm w => templateSelectArm w
  | .thumb w => templateSelectThumb w

/-- The state before the instruction, or the code for it, at an address. -/
def before (insn : Insn) (s : State) (pc : Word) : State :=
  { s with pc := pc, thumb := decide (insn.kind = .thumb) }

/-- What the instruction does at its own address. -/
def exec (insn : Insn) (s : State) (pc : Word) : Option State :=
  match insn with
  | .arm w => execArm w (insn.before s pc)
  | .thumb w => execThumb w (insn.before s pc)

/-- Where the instruction and its template may stand. -/
def Aligned (insn : Insn) (pc base : Word) : Prop :=
  match insn with
  | .arm _ => pc.toNat % 4 = 0 ∧ base.toNat % 4 = 0
  | .thumb _ => pc.toNat % 2 = 0 ∧ base.toNat % 4 = 2

end Insn

/-- The templates for branches of ARM, and for branches and literals of 16-bit Thumb. -/
def branchTemplate : Template → Bool
  | .bA1 | .blImmA1 | .blxImmA2 | .blxRegA1 => true
  | .adrT1 | .ldrLitT1 | .bT1 | .bT2 | .cbzT1 => true
  | _ => false

/-- The address at an offset in the template. -/
def place (base : Word) (offset : Nat) : Word := base + BitVec.ofNat 32 offset

/-- The code stands in memory from `base` on. -/
def Loaded (s : State) (base : Word) (code : Code) : Prop :=
  ∀ i, (h : i < code.length) → s.loadHalf (place base (2 * i)) = code.get ⟨i, h⟩

/-- The word just below the stack pointer. -/
def BelowSp (s : State) (a : Word) : Prop := (a - (s.r sp - 4#32)).toNat < 4

/-- The code does not stand just below the stack pointer. -/
def Clear (s : State) (base : Word) (code : Code) : Prop :=
  ∀ i < 2 * code.length, ¬ BelowSp s (place base i)

/-- The same state, but for the word just below the stack pointer of `s`. -/
structure SameButBelow (s t t' : State) : Prop where
  registers : t.r = t'.r
  pc : t.pc = t'.pc
  thumb : t.thumb = t'.thumb
  flags : t.flags = t'.flags
  memory : ∀ a, ¬ BelowSp s a → t.memory a = t'.memory a

/-- A `blx` that is executed saves a register other than the stack pointer, on an aligned stack. -/
def Savable (s : State) (w : Word) : Prop :=
  condHolds (field w 28 4) s.flags = true → field w 0 4 ≠ sp ∧ (s.r sp).toNat % 4 = 0

/-! ## Alignment -/

/-- Clearing low bits that are clear. -/
private theorem and_mask {x mask : Word} {k : Nat}
    (mask_bits : ∀ i < 32, mask.getLsbD i = decide (k ≤ i)) (aligned : 2 ^ k ∣ x.toNat) :
    x &&& mask = x := by
  apply BitVec.eq_of_getLsbD_eq
  intro i inside
  rw [BitVec.getLsbD_and, mask_bits i inside]
  by_cases low : i < k
  · rw [getLsbD_of_dvd aligned low, Bool.false_and]
  · simp [Nat.not_lt.mp low]

theorem align_of_aligned {x : Word} (aligned : x.toNat % 4 = 0) : align x = x :=
  and_mask (by decide) (show 2 ^ 2 ∣ x.toNat from Nat.dvd_of_mod_eq_zero aligned)

theorem even_of_even {x : Word} (even : x.toNat % 2 = 0) : x &&& ~~~1#32 = x :=
  and_mask (by decide) (show 2 ^ 1 ∣ x.toNat from Nat.dvd_of_mod_eq_zero even)

theorem and_three_iff {x : Word} : x &&& 3#32 = 0#32 ↔ x.toNat % 4 = 0 := by
  have residue : (x &&& 3#32).toNat = x.toNat % 4 := by
    rw [BitVec.toNat_and]
    exact Nat.and_two_pow_sub_one_eq_mod x.toNat 2
  rw [← BitVec.toNat_inj, residue]
  rfl

theorem bxWritePc_arm {target : Word} (aligned : target.toNat % 4 = 0) (s : State) :
    s.bxWritePc target = some { s with thumb := false, pc := target } := by
  have dvd : 2 ^ 2 ∣ target.toNat := Nat.dvd_of_mod_eq_zero aligned
  rw [State.bxWritePc, getLsbD_of_dvd dvd (show 0 < 2 by decide),
    getLsbD_of_dvd dvd (show 1 < 2 by decide)]
  rfl

theorem bxWritePc_thumb {target : Word} (even : target.toNat % 2 = 0) (s : State) :
    s.bxWritePc (target ||| 1#32) = some { s with thumb := true, pc := target } := by
  have set : (target ||| 1#32).getLsbD 0 = true := by simp
  have cleared : (target ||| 1#32) &&& ~~~1#32 = target &&& ~~~1#32 := by
    apply BitVec.eq_of_getLsbD_eq
    intro i inside
    have ones : (1#32).getLsbD i = decide (i = 0) := by
      have all : ∀ i < 32, (1#32).getLsbD i = decide (i = 0) := by decide
      exact all i inside
    rw [BitVec.getLsbD_and, BitVec.getLsbD_and, BitVec.getLsbD_or, BitVec.getLsbD_not, ones]
    by_cases first : i = 0 <;> simp [first]
  rw [State.bxWritePc, set, if_pos rfl, cleared, even_of_even even]

/-- Low bits that are clear. -/
theorem aligned_of_bits {n m : Nat} {x : BitVec n} (clear : ∀ i < m, x.getLsbD i = false) :
    x.toNat % 2 ^ m = 0 := by
  have zero : x.setWidth m = 0#m := by
    apply BitVec.eq_of_getLsbD_eq
    intro i inside
    simp [clear i inside]
  rw [← BitVec.toNat_setWidth, zero]
  rfl

/-- An offset that counts larger units than bytes. -/
theorem signed_offset {k m : Nat} (x : BitVec k) (n : Nat) :
    ((x ++ 0#m).signExtend n).toNat % 2 ^ m = 0 := by
  refine aligned_of_bits fun i inside => ?_
  rw [BitVec.getLsbD_signExtend, if_pos (by omega), BitVec.getLsbD_append, if_pos inside]
  simp

private theorem unsigned_offset {k m : Nat} (x : BitVec k) (n : Nat) :
    ((x ++ 0#m).setWidth n).toNat % 2 ^ m = 0 := by
  refine aligned_of_bits fun i inside => ?_
  rw [BitVec.getLsbD_setWidth, BitVec.getLsbD_append, if_pos inside]
  simp

/-! ## States -/

@[simp] theorem goto_r (s : State) (a : Word) : (s.goto a).r = s.r := rfl
@[simp] theorem goto_pc (s : State) (a : Word) : (s.goto a).pc = a := rfl
@[simp] theorem goto_thumb (s : State) (a : Word) : (s.goto a).thumb = s.thumb := rfl
@[simp] theorem goto_flags (s : State) (a : Word) : (s.goto a).flags = s.flags := rfl
@[simp] theorem goto_load (s : State) (a b : Word) : (s.goto a).load b = s.load b := rfl
@[simp] theorem goto_loadHalf (s : State) (a b : Word) : (s.goto a).loadHalf b = s.loadHalf b := rfl
@[simp] theorem goto_goto (s : State) (a b : Word) : (s.goto a).goto b = s.goto b := rfl
@[simp] theorem writeR_pc (s : State) (n : BitVec 4) (v : Word) : (s.writeR n v).pc = s.pc := rfl
@[simp] theorem writeR_thumb (s : State) (n : BitVec 4) (v : Word) :
    (s.writeR n v).thumb = s.thumb := rfl
@[simp] theorem writeR_flags (s : State) (n : BitVec 4) (v : Word) :
    (s.writeR n v).flags = s.flags := rfl
@[simp] theorem writeR_load (s : State) (n : BitVec 4) (v b : Word) :
    (s.writeR n v).load b = s.load b := rfl
@[simp] theorem writeR_loadHalf (s : State) (n : BitVec 4) (v b : Word) :
    (s.writeR n v).loadHalf b = s.loadHalf b := rfl

theorem readPc_arm {s : State} (arm : s.thumb = false) : s.readPc = s.pc + 8#32 := by
  simp [State.readPc, arm]

theorem readPc_thumb {s : State} (thumb : s.thumb = true) : s.readPc = s.pc + 4#32 := by
  simp [State.readPc, thumb]

/-! ## The code in memory -/

section Loaded

variable {s : State} {base : Word} {code : Code}

theorem place_add (base : Word) (offset k : Nat) :
    place base offset + BitVec.ofNat 32 k = place base (offset + k) := by
  rw [place, place, BitVec.add_assoc, ← BitVec.ofNat_add]

theorem loaded_half (loaded : Loaded s base code) (i : Nat) {h : BitVec 16} (at_ : code[i]? = some h) :
    s.loadHalf (place base (2 * i)) = h := by
  obtain ⟨inside, rfl⟩ := List.getElem?_eq_some_iff.mp at_
  exact loaded i inside

/-- A word of the code, which has its low half first. -/
private theorem loaded_word (loaded : Loaded s base code) (i : Nat) {w : Word}
    (first : code[i]? = some (field w 0 16))
    (second : code[i + 1]? = some (field w 16 16)) : s.load (place base (2 * i)) = w := by
  have low : loadLE 16 s.memory (place base (2 * i)) = field w 0 16 := loaded_half loaded i first
  have high : loadLE 16 s.memory (place base (2 * (i + 1))) = field w 16 16 :=
    loaded_half loaded (i + 1) second
  have split : s.load (place base (2 * i)) =
      loadLE 16 s.memory (place base (2 * i) + BitVec.ofNat 32 2) ++
        loadLE 16 s.memory (place base (2 * i)) :=
    loadLE_append (v := 16) (w := 16) (by decide) (by decide)
  rw [split, place_add, low, show 2 * i + 2 = 2 * (i + 1) by omega, high]
  apply BitVec.eq_of_getLsbD_eq
  intro j inside
  rw [BitVec.getLsbD_append]
  by_cases below : j < 16
  · simp [field, below]
  · simp [field, below]
    grind

/-- A store below the stack pointer leaves the code. -/
private theorem loaded_store (loaded : Loaded s base code) (clear : Clear s base code) (value : Word) :
    Loaded (s.store (s.r sp - 4#32) value) base code := by
  intro i inside
  rw [← loaded i inside]
  refine loadLE_congr fun j below => storeLE_apart ?_ value
  have free := clear (2 * i + j) (by omega)
  rw [← place_add] at free
  exact Nat.not_lt.mp free

end Loaded

/-! ## ARM instructions of the templates -/

variable {s s' : State} {base w d x : Word}

theorem place_aligned {offset : Nat} (aligned : base.toNat % 4 = 0) (whole : offset % 4 = 0) :
    (place base offset).toNat % 4 = 0 := by
  rw [place, BitVec.toNat_add, BitVec.toNat_ofNat]
  omega

/-- An ARM word that has a condition. -/
def Conditional (w : Word) : Prop := wordMatches w blxImmPattern = false ∧ field w 28 4 ≠ 15#4

instance : Decidable (Conditional w) := inferInstanceAs (Decidable (_ ∧ _))

/-- A conditional instruction whose pattern rules out all others. -/
theorem execArm_class {p : Pattern} {effect : Word → State → Option State}
    (conditional : Conditional w) (has : wordMatches w p = true)
    (only : (armInstructions.filter fun entry => !conflict 32 p entry.1) = [(p, effect)]) :
    execArm w s = if condHolds (field w 28 4) s.flags then effect w s else some (nextArm s) := by
  have decoded : decodeWith armInstructions w = some effect := by
    rw [decodeWith_filter has, only]
    simp [decodeWith, has]
  rw [execArm, conditional.1, if_neg Bool.false_ne_true, if_neg conditional.2, decoded]
  rfl

private theorem run_on {offset steps : Nat} (arm : s.thumb = false)
    (fetched : s.load (place base offset) = w)
    (stays : (wordMatches w "----010--0-1----1111------------" &&
      condHolds (field w 28 4) s.flags) = false)
    (ok : execArm w (s.goto (place base offset)) = some s') :
    runOol (steps + 1) (s.goto (place base offset)) = runOol steps s' := by
  simp only [runOol, step, loadsPc, goto_thumb, arm, goto_load, goto_pc, goto_flags, fetched, ok,
    stays, Bool.false_eq_true, ↓reduceIte,
    Option.bind_some]

private theorem run_leave {offset steps : Nat} (arm : s.thumb = false)
    (fetched : s.load (place base offset) = w)
    (leaves : (wordMatches w "----010--0-1----1111------------" &&
      condHolds (field w 28 4) s.flags) = true) :
    runOol (steps + 1) (s.goto (place base offset)) = execArm w (s.goto (place base offset)) := by
  simp only [runOol, step, loadsPc, goto_thumb, arm, goto_load, goto_pc, goto_flags, fetched,
    leaves, Bool.false_eq_true, ↓reduceIte,
    Option.bind_fun_some]

/-- `ldr` of a register from `distance` bytes after what is read from the pc. -/
structure LiteralLoad (w : Word) (t : BitVec 4) (distance : Word) : Prop where
  has : wordMatches w loadStorePattern = true
  load : w.getLsbD 20 = true
  stays : w.getLsbD 21 = false
  index : w.getLsbD 24 = true
  base : field w 16 4 = 15#4
  target : field w 12 4 = t
  offset : (if w.getLsbD 23 then (field w 0 12).setWidth 32 else -(field w 0 12).setWidth 32) = distance

/-- The condition of a load does not matter. -/
theorem LiteralLoad.patched {t : BitVec 4} {distance : Word} (shape : LiteralLoad d t distance)
    (x : Word) :
    LiteralLoad (patch 0xf0000000#32 d x) t distance := by
  obtain ⟨has, load, stays, index, base, target, offset⟩ := shape
  have kept (i : Nat) (low : (0xf0000000#32).getLsbD i = false) :
      (patch 0xf0000000#32 d x).getLsbD i = d.getLsbD i := by
    rw [getLsbD_patch, low, if_neg Bool.false_ne_true]
  refine ⟨?_, ?_, ?_, ?_, ?_, ?_, ?_⟩
  · rwa [matches_patch (by decide)]
  · rwa [kept 20 (by decide)]
  · rwa [kept 21 (by decide)]
  · rwa [kept 24 (by decide)]
  · rwa [field_patch_outside 16 4 (by decide) (by decide)]
  · rwa [field_patch_outside 12 4 (by decide) (by decide)]
  · rwa [kept 23 (by decide), field_patch_outside 0 12 (by decide) (by decide)]

theorem conditional_patched (has : wordMatches d loadStorePattern = true) (cond : field x 28 4 ≠ 15#4) :
    Conditional (patch 0xf0000000#32 d x) := by
  refine ⟨?_, ?_⟩
  · have still : wordMatches (patch 0xf0000000#32 d x) loadStorePattern = true :=
      by rwa [matches_patch (by decide)]
    exact not_matches_of_conflict still (by decide)
  · rwa [field_patch_inside 28 4 (by decide)]

/-- What the load does, where `target` is the offset of the constant in the template. -/
theorem execLoadStore_literal {t : BitVec 4} {distance : Word} (shape : LiteralLoad w t distance)
    (offset target : Nat)
    (arm : s.thumb = false) (aligned : base.toNat % 4 = 0) (whole : offset % 4 = 0 ∧ target % 4 = 0)
    (there : BitVec.ofNat 32 offset + 8#32 + distance = BitVec.ofNat 32 target) :
    execLoadStore w (s.goto (place base offset)) =
      if t = 15#4 then s.bxWritePc (s.load (place base target))
      else some ((s.writeR t (s.load (place base target))).goto (place base (offset + 4))) := by
  have pc : (s.goto (place base offset)).readPc = place base (offset + 8) := by
    rw [readPc_arm (s := s.goto (place base offset)) arm, goto_pc]
    exact place_add base offset 8
  have start : align (place base (offset + 8)) = place base (offset + 8) :=
    align_of_aligned (place_aligned aligned (by omega))
  have address : (if w.getLsbD 23 then place base (offset + 8) + (field w 0 12).setWidth 32
      else place base (offset + 8) - (field w 0 12).setWidth 32) = place base target := by
    have sum : place base (offset + 8) + distance = place base target := by
      rw [← place_add, place, place, BitVec.add_assoc,
        BitVec.add_assoc, ← BitVec.add_assoc (BitVec.ofNat 32 offset), there]
    rw [← sum, ← shape.offset]
    split
    · rfl
    · rw [BitVec.sub_eq_add_neg]
  have inside := and_three_iff.mpr (place_aligned aligned whole.2)
  have next : nextArm ((s.goto (place base offset)).writeR t (s.load (place base target))) =
      (s.writeR t (s.load (place base target))).goto (place base (offset + 4)) := by
    rw [nextArm, writeR_pc, goto_pc]
    exact congrArg _ (place_add base offset 4)
  simp only [execLoadStore, shape.base, shape.target, shape.index, shape.stays, shape.load,
    Bool.not_true, Bool.false_or, Bool.false_and,
    Bool.false_eq_true, ↓reduceIte, pc, start, address, inside, goto_load, next]
  rfl

theorem LiteralLoad.loads {t : BitVec 4} {distance : Word} (shape : LiteralLoad w t distance) :
    wordMatches w "----010--0-1----1111------------" = decide (t = 15#4) := by
  have twenty : field w 20 1 = 1#1 := field_bit_iff.mpr shape.load
  by_cases pc : t = 15#4
  · subst pc
    rw [decide_eq_true rfl]
    apply matches_of_known [Pattern.bits loadStorePattern, Bits.ofField 12 15#4, Bits.ofField 20 1#1]
    · simpa [← field_eq_iff, twenty, shape.target] using wordMatches_bits.mp shape.has
    · decide
  · rw [decide_eq_false pc]
    by_contra all
    rw [Bool.not_eq_false] at all
    have fifteen : field w 12 4 = 15#4 := field_of_matches all 12 4 (by decide)
    exact pc (shape.target.symm.trans fifteen)

/-- A load of the pc leaves the template if its condition holds. -/
private theorem run_load_pc {distance : Word} (shape : LiteralLoad w 15#4 distance)
    (conditional : Conditional w) (offset target : Nat)
    (steps : Nat) (arm : s.thumb = false) (aligned : base.toNat % 4 = 0)
    (whole : offset % 4 = 0 ∧ target % 4 = 0)
    (there : BitVec.ofNat 32 offset + 8#32 + distance = BitVec.ofNat 32 target)
    (fetched : s.load (place base offset) = w) :
    runOol (steps + 1) (s.goto (place base offset)) =
      if condHolds (field w 28 4) s.flags then s.bxWritePc (s.load (place base target))
      else runOol steps (s.goto (place base (offset + 4))) := by
  have ran := execLoadStore_literal (s := s) shape offset target arm aligned whole there
  rw [if_pos rfl] at ran
  have whole_word := execArm_class (s := s.goto (place base offset)) conditional shape.has rfl
  rw [goto_flags, ran] at whole_word
  have loads : wordMatches w "----010--0-1----1111------------" = true := shape.loads
  by_cases holds : condHolds (field w 28 4) s.flags = true
  · rw [if_pos holds] at whole_word ⊢
    rw [run_leave arm fetched (by rw [loads, holds]; rfl), whole_word]
  · rw [if_neg holds] at whole_word ⊢
    rw [run_on arm fetched (by rw [loads, Bool.eq_false_iff.mpr holds]; rfl) whole_word, nextArm,
      goto_goto, goto_pc]
    rw [show place base offset + 4#32 = place base (offset + 4) from place_add base offset 4]

/-- A load of another register goes on. -/
private theorem run_load {t : BitVec 4} {distance : Word} (shape : LiteralLoad w t distance)
    (other : t ≠ 15#4) (conditional : Conditional w)
    (offset target : Nat) (steps : Nat) (arm : s.thumb = false) (aligned : base.toNat % 4 = 0)
    (whole : offset % 4 = 0 ∧ target % 4 = 0)
    (there : BitVec.ofNat 32 offset + 8#32 + distance = BitVec.ofNat 32 target)
    (fetched : s.load (place base offset) = w) :
    runOol (steps + 1) (s.goto (place base offset)) =
      runOol steps
        ((if condHolds (field w 28 4) s.flags then s.writeR t (s.load (place base target))
          else s).goto (place base (offset + 4))) := by
  have ran := execLoadStore_literal (s := s) shape offset target arm aligned whole there
  rw [if_neg other] at ran
  have whole_word := execArm_class (s := s.goto (place base offset)) conditional shape.has rfl
  rw [goto_flags, ran] at whole_word
  have loads : wordMatches w "----010--0-1----1111------------" = false :=
    shape.loads.trans (decide_eq_false other)
  by_cases holds : condHolds (field w 28 4) s.flags = true
  · rw [if_pos holds] at whole_word ⊢
    rw [run_on arm fetched (by rw [loads]; rfl) whole_word]
  · rw [if_neg holds] at whole_word ⊢
    rw [run_on arm fetched (by rw [loads]; rfl) whole_word, nextArm, goto_goto, goto_pc]
    rw [show place base offset + 4#32 = place base (offset + 4) from place_add base offset 4]

theorem loaded_arm {words : List Word} (loaded : Loaded s base (armCode words 0)) {k : Nat}
    (there : words[k]? = some w) :
    s.load (place base (4 * k)) = w := by
  obtain ⟨low, high⟩ := armCode_get there
  have found := loaded_word loaded (2 * k) low high
  rwa [show 2 * (2 * k) = 4 * k by omega] at found

theorem leave_arm {target : Word} (arm : s.thumb = false) (aligned : target.toNat % 4 = 0) :
    s.bxWritePc target = some (s.goto target) := by
  rw [bxWritePc_arm aligned, State.goto, ← arm]

theorem sum_aligned {x y : Word} (first : x.toNat % 4 = 0) (second : y.toNat % 4 = 0) :
    (x + y).toNat % 4 = 0 := by
  rw [BitVec.toNat_add]
  omega

/-! ## Templates for ARM -/

section ARM

variable {handler origin : Word}

private theorem literal_pc : LiteralLoad 0xe59ff004#32 15#4 4#32 := by
  constructor <;> decide

private theorem literal_lr : LiteralLoad 0xe59fe004#32 lr 4#32 := by
  constructor <;> decide

theorem literal_next : LiteralLoad 0xe51ff004#32 15#4 (-4#32) := by
  constructor <;> decide

theorem copied_condition (access : Word) : field (conditionally w access) 28 4 = field w 28 4 := by
  rw [conditionally, field_patch_inside 28 4 (by decide), field_moved w 28 4 28 (by decide)]

theorem conditional_copied (access : Word) (has : wordMatches access loadStorePattern = true)
    (cond : field w 28 4 ≠ 15#4) :
    Conditional (conditionally w access) :=
  conditional_patched has (by rwa [field_moved w 28 4 28 (by decide)])

theorem literal_copied {t : BitVec 4} {distance : Word} (shape : LiteralLoad d t distance) :
    LiteralLoad (conditionally w d) t distance := shape.patched _

/-- The jump to the next instruction, from the last word of the code. -/
private theorem run_next {offset : Nat} (steps : Nat) (arm : s.thumb = false)
    (aligned : base.toNat % 4 = 0) (whole : offset % 4 = 0)
    (fetched : s.load (place base offset) = 0xe51ff004#32)
    (next : s.load (place base (offset + 4)) = x) (even : x.toNat % 4 = 0) :
    runOol (steps + 1) (s.goto (place base offset)) = some (s.goto x) := by
  have there : BitVec.ofNat 32 offset + 8#32 + -4#32 = BitVec.ofNat 32 (offset + 4) := by
    rw [BitVec.add_assoc, BitVec.ofNat_add]
    rfl
  rw [run_load_pc literal_next (by decide) offset (offset + 4) steps arm aligned ⟨whole,
    by omega⟩ there fetched, next, leave_arm arm even]
  rfl

theorem offset_aligned (k : Nat) (x : BitVec k) : ((x ++ 0#2).signExtend 32).toNat % 4 = 0 :=
  signed_offset x 32

private theorem run_bA1 (arm : s.thumb = false) (aligned : s.pc.toNat % 4 = 0 ∧ base.toNat % 4 = 0)
    (b : wordMatches w "----1010------------------------" = true) (conditional : Conditional w)
    (loaded : Loaded s base (armCode [conditionally w 0xe59ff004#32, 0xe51ff004#32, s.pc + 4#32,
      s.pc + 8#32 + (field w 0 24 ++ 0#2).signExtend 32, handler, origin] 0)) :
    runOol 2 (s.goto (place base 0)) = execArm w s := by
  have first := loaded_arm loaded (k := 0) rfl
  have last := loaded_arm loaded (k := 1) rfl
  have next := loaded_arm loaded (k := 2) rfl
  have target := loaded_arm loaded (k := 3) rfl
  have link : w.getLsbD 24 = false := field_bit_iff.mp (field_of_matches b 24 1 (by decide))
  have branch := execArm_class (s :=
    s) conditional (matches_of_inside b (by decide)) (show _ = [(branchPattern, _)] from rfl)
  have start : s.readPc = s.pc + 8#32 := readPc_arm arm
  have inside : (s.pc + 8#32 + (field w 0 24 ++ 0#2).signExtend 32).toNat % 4 = 0 :=
    sum_aligned (sum_aligned aligned.1 rfl) (offset_aligned 24 _)
  rw [run_load_pc (literal_copied literal_pc) (conditional_copied _ (by decide) conditional.2) 0 12
    1 arm aligned.2 (by decide) rfl first,
    copied_condition, branch]
  by_cases holds : condHolds (field w 28 4) s.flags = true
  · rw [if_pos holds, if_pos holds, target, leave_arm arm inside, execBranch, link,
      if_neg Bool.false_ne_true, State.branchWritePc, arm,
      if_neg Bool.false_ne_true, start, align_of_aligned inside]
  · rw [if_neg holds, if_neg holds, run_next 0 arm aligned.2 rfl last next (sum_aligned aligned.1 rfl)]
    rfl

private theorem return_address (arm : s.thumb = false) : s.readPc - 4#32 = s.pc + 4#32 := by
  rw [readPc_arm arm, BitVec.sub_eq_add_neg, BitVec.add_assoc]
  rfl

private theorem run_blImmA1 (arm : s.thumb = false) (aligned : s.pc.toNat % 4 = 0 ∧ base.toNat % 4 = 0)
    (bl : wordMatches w "----1011------------------------" = true) (conditional : Conditional w)
    (loaded : Loaded s base (armCode [conditionally w 0xe59fe004#32, conditionally w 0xe59ff004#32,
      0xe51ff004#32, s.pc + 4#32,
      s.pc + 8#32 + (field w 0 24 ++ 0#2).signExtend 32, handler, origin] 0)) :
    runOol 3 (s.goto (place base 0)) = execArm w s := by
  have first := loaded_arm loaded (k := 0) rfl
  have second := loaded_arm loaded (k := 1) rfl
  have last := loaded_arm loaded (k := 2) rfl
  have next := loaded_arm loaded (k := 3) rfl
  have target := loaded_arm loaded (k := 4) rfl
  have link : w.getLsbD 24 = true := field_bit_iff.mp (field_of_matches bl 24 1 (by decide))
  have branch := execArm_class (s :=
    s) conditional (matches_of_inside bl (by decide)) (show _ = [(branchPattern, _)] from rfl)
  have start : s.readPc = s.pc + 8#32 := readPc_arm arm
  have inside : (s.pc + 8#32 + (field w 0 24 ++ 0#2).signExtend 32).toNat % 4 = 0 :=
    sum_aligned (sum_aligned aligned.1 rfl) (offset_aligned 24 _)
  rw [run_load (literal_copied literal_lr) (by decide)
    (conditional_copied _ (by decide) conditional.2) 0 12 2 arm aligned.2 (by decide) rfl
    first, copied_condition, branch]
  by_cases holds : condHolds (field w 28 4) s.flags = true
  · have linked : (s.writeR lr (s.pc + 4#32)).thumb = false := arm
    rw [if_pos holds, if_pos holds, show s.load (place base 12) = s.pc + 4#32 from next,
      run_load_pc (literal_copied literal_pc) (conditional_copied _ (by decide) conditional.2) 4 16
        1 linked aligned.2 (by decide) rfl second,
      copied_condition, writeR_flags, if_pos holds, writeR_load, target, leave_arm linked inside,
      execBranch, link, if_pos rfl,
      return_address arm, State.branchWritePc, linked, if_neg Bool.false_ne_true, start,
      align_of_aligned inside]
  · rw [if_neg holds, if_neg holds,
      run_load_pc (literal_copied literal_pc) (conditional_copied _ (by decide) conditional.2) 4 16
        1 arm aligned.2 (by decide) rfl second,
      copied_condition, if_neg holds, run_next 0 arm aligned.2 rfl last next (sum_aligned aligned.1 rfl)]
    rfl

private theorem run_blxImmA2 (arm : s.thumb = false) (aligned : s.pc.toNat % 4 = 0 ∧ base.toNat % 4 = 0)
    (blx : wordMatches w blxImmPattern = true)
    (loaded : Loaded s base (armCode [0xe59fe000#32, 0xe59ff000#32, s.pc + 4#32,
      (s.pc + 8#32 + (field w 0 24 ++ field w 24 1 ++ 0#1).signExtend 32) ||| 1#32, handler,
      origin] 0)) :
    runOol 2 (s.goto (place base 0)) = execArm w s := by
  have first := loaded_arm loaded (k := 0) rfl
  have second := loaded_arm loaded (k := 1) rfl
  have next := loaded_arm loaded (k := 2) rfl
  have target := loaded_arm loaded (k := 3) rfl
  have link : LiteralLoad 0xe59fe000#32 lr 0#32 := by constructor <;> decide
  have jump : LiteralLoad 0xe59ff000#32 15#4 0#32 := by constructor <;> decide
  have linked : (s.writeR lr (s.pc + 4#32)).thumb = false := arm
  have start : align s.readPc = s.pc + 8#32 :=
    by rw [readPc_arm arm, align_of_aligned (sum_aligned aligned.1 rfl)]
  have even : (s.pc + 8#32 + (field w 0 24 ++ field w 24 1 ++ 0#1).signExtend 32).toNat % 2 = 0 := by
    have offset : ((field w 0 24 ++ field w 24 1 ++ 0#1).signExtend 32).toNat % 2 = 0 :=
      signed_offset _ 32
    have pc := sum_aligned aligned.1 (y := 8#32) rfl
    rw [BitVec.toNat_add]
    omega
  have always : condHolds (field 0xe59fe000#32 28 4) s.flags = true := rfl
  have leaves : condHolds (field 0xe59ff000#32 28 4) s.flags = true := rfl
  rw [run_load link (by decide) (by decide) 0 8 1 arm aligned.2 (by decide) rfl first, if_pos always,
    show s.load (place base 8) = s.pc + 4#32 from next,
    run_load_pc jump (by decide) 4 12 0 linked aligned.2 (by decide) rfl second,
    writeR_flags, if_pos leaves, writeR_load, target, bxWritePc_thumb even, execArm, blx,
    if_pos rfl, execBlxImm, return_address arm, start,
    State.branchWritePc, if_pos rfl, even_of_even even]
  rfl

/-! ### Through the stack -/

theorem bit_of_matches {p : Pattern} (has : wordMatches w p = true) (i : Nat) (b : Bool)
    (fixed : field (BitVec.ofNat 32 p.mask) i 1 = BitVec.allOnes 1)
    (is : field (BitVec.ofNat 32 p.value) i 1 = BitVec.ofBool b) :
    w.getLsbD i = b :=
  field_bit_iff.mp ((field_of_matches has i 1 fixed).trans is)

/-- The push of the register that the instruction branches to. -/
abbrev pushed (w : Word) : Word :=
  patch 0x0000f000#32 (conditionally w 0xe52d0004#32) (moved 32 w 0 4 12)

private theorem pushed_matches : wordMatches (pushed w) "----010100101101----000000000100" = true := by
  rw [matches_patch (by decide), conditionally, matches_patch (by decide)]
  decide

private theorem pushed_register : field (pushed w) 12 4 = field w 0 4 := by
  rw [field_patch_inside 12 4 (by decide), field_moved w 0 4 12 (by decide)]

private theorem pushed_condition : field (pushed w) 28 4 = field w 28 4 := by
  rw [field_patch_outside 28 4 (by decide) (by decide), copied_condition]

private theorem sub_add (x y : Word) : x - y + y = x := BitVec.sub_add_cancel x y

/-- The state after the push. -/
private def afterPush (s : State) (w : Word) : State :=
  (s.writeR sp (s.r sp - 4#32)).store (s.r sp - 4#32) (s.r (field w 0 4))

private theorem exec_push {m : BitVec 4} (register : field w 0 4 = m) (other : m ≠ 15#4)
    (cond : field w 28 4 ≠ 15#4)
    (holds : condHolds (field w 28 4) s.flags = true) :
    execArm (pushed w) (s.goto (place base 0)) = if m = sp then none
      else some ((afterPush s w).goto (place base 4)) := by
  have shape := pushed_matches (w := w)
  have base_register : field (pushed w) 16 4 = 13#4 := field_of_matches shape 16 4 (by decide)
  have distance : field (pushed w) 0 12 = 4#12 := field_of_matches shape 0 12 (by decide)
  have known : wordMatches (pushed w) loadStorePattern = true := matches_of_inside shape (by decide)
  have conditional : Conditional (pushed w) :=
    ⟨not_matches_of_conflict known (by decide), by rwa [pushed_condition]⟩
  have ran := execArm_class (s := s.goto (place base 0)) conditional known rfl
  rw [ran, goto_flags, pushed_condition, if_pos holds]
  have next : nextArm (((s.goto (place base 0)).writeR sp (s.r sp - 4#32)).store
      (s.r sp - 4#32) (s.r m)) =
      (afterPush s w).goto (place base 4) := by
    rw [nextArm, afterPush, register]
    exact congrArg _ (place_add base 0 4)
  have two : (13#4 == 15#4) = false := rfl
  by_cases stack : m = sp
  · have same : (13#4 == m) = true := beq_iff_eq.mpr stack.symm
    simp only [execLoadStore, base_register, pushed_register, register,
      bit_of_matches shape 24 true rfl rfl, bit_of_matches shape 21 true rfl rfl, Bool.not_true,
      Bool.false_and, Bool.true_and, same, Bool.or_true, Bool.false_eq_true, ↓reduceIte, if_pos stack]
  · have different : (13#4 == m) = false := beq_eq_false_iff_ne.mpr (Ne.symm stack)
    have value : (s.goto (place base 0)).readR m = s.r m := if_neg other
    rw [if_neg stack, ← next]
    simp only [execLoadStore, base_register, pushed_register, register, distance,
      bit_of_matches shape 24 true rfl rfl, bit_of_matches shape 21 true rfl rfl,
      bit_of_matches shape 23 false rfl rfl, bit_of_matches shape 20 false rfl rfl, Bool.not_true,
      Bool.false_and, Bool.false_or, Bool.true_and, two, different,
      Bool.false_eq_true, ↓reduceIte, if_neg other, value]
    rfl

/-- The pop of the pc. -/
private theorem exec_pop (cond : field w 28 4 ≠ 15#4)
    (holds : condHolds (field w 28 4) s.flags = true) (a : Word) :
    execArm (conditionally w 0xe49df004#32) (s.goto a) =
      if (s.r sp).toNat % 4 = 0 then (s.writeR sp (s.r sp + 4#32)).bxWritePc (s.load (s.r sp))
        else none := by
  have shape : wordMatches (conditionally w 0xe49df004#32) "----0100100111011111000000000100" =
      true := by
    rw [conditionally, matches_patch (by decide)]
    decide
  have base_register : field (conditionally w 0xe49df004#32) 16 4 = 13#4 :=
    field_of_matches shape 16 4 (by decide)
  have target : field (conditionally w 0xe49df004#32) 12 4 = 15#4 :=
    field_of_matches shape 12 4 (by decide)
  have distance : field (conditionally w 0xe49df004#32) 0 12 = 4#12 :=
    field_of_matches shape 0 12 (by decide)
  have ran := execArm_class (s :=
    s.goto a) (conditional_copied 0xe49df004#32 (by decide) cond) (matches_of_inside shape (by decide))
    (show _ = [(loadStorePattern, _)] from rfl)
  have popped : execLoadStore (conditionally w 0xe49df004#32) (s.goto a) =
      if s.r sp &&& 3#32 = 0#32 then ((s.goto a).writeR sp (s.r sp + 4#32)).bxWritePc (s.load (s.r sp)) else none := by
    have two : (13#4 == 15#4) = false := rfl
    simp only [execLoadStore, base_register, target, distance,
      bit_of_matches shape 24 false rfl rfl, bit_of_matches shape 21 false rfl rfl,
      bit_of_matches shape 23 true rfl rfl, bit_of_matches shape 20 true rfl rfl, Bool.not_false,
      Bool.true_and, Bool.true_or, two,
      Bool.false_or, Bool.false_eq_true, ↓reduceIte]
    rfl
  rw [ran, goto_flags, copied_condition, if_pos holds, popped]
  simp only [and_three_iff]
  rfl

/-- The code of the template for `blx` with a register. -/
abbrev blxCode (w next handler origin : Word) : Code :=
  armCode [pushed w, conditionally w 0xe59fe004#32, conditionally w 0xe49df004#32, 0xe51ff004#32,
    next, handler, origin] 0

private theorem run_to_pop (arm : s.thumb = false) (aligned : base.toNat % 4 = 0)
    (known : field w 0 4 ≠ 15#4) (saved : field w 0 4 ≠ sp)
    (cond : field w 28 4 ≠ 15#4) (holds : condHolds (field w 28 4) s.flags = true)
    (loaded : Loaded s base (blxCode w x handler origin))
    (clear : Clear s base (blxCode w x handler origin)) (steps : Nat) :
    runOol (steps + 2) (s.goto (place base 0)) =
      runOol steps (((afterPush s w).writeR lr x).goto (place base 8)) := by
  have first := loaded_arm loaded (k := 0) rfl
  have later : Loaded (afterPush s w) base (blxCode w x handler origin) := loaded_store loaded clear _
  have second := loaded_arm later (k := 1) rfl
  have next := loaded_arm later (k := 4) rfl
  have still : (afterPush s w).thumb = false := arm
  have flags : (afterPush s w).flags = s.flags := rfl
  have push : execArm (pushed w) (s.goto (place base 0)) = _ := exec_push rfl known cond holds
  rw [if_neg saved] at push
  have stays : wordMatches (pushed w) "----010--0-1----1111------------" = false :=
    not_matches_of_conflict pushed_matches (by decide)
  rw [run_on arm first (by rw [stays]; rfl) push,
    run_load (literal_copied literal_lr) (by decide) (conditional_copied _ (by decide) cond) 4 16
      steps still aligned (by decide) rfl second,
    copied_condition, flags, if_pos holds, next]

private theorem run_pop (arm : s.thumb = false) (cond : field w 28 4 ≠ 15#4)
    (holds : condHolds (field w 28 4) s.flags = true)
    (fetched : s.load (place base 8) = conditionally w 0xe49df004#32) (steps : Nat) :
    runOol (steps + 1) (s.goto (place base 8)) =
      if (s.r sp).toNat % 4 = 0 then (s.writeR sp (s.r sp + 4#32)).bxWritePc (s.load (s.r sp))
        else none := by
  have loads : wordMatches (conditionally w 0xe49df004#32) "----010--0-1----1111------------" =
      true := by
    rw [conditionally, matches_patch (by decide)]
    decide
  rw [run_leave arm fetched (by rw [loads, copied_condition, holds]; rfl), exec_pop cond holds]

/-- The pop finds what was pushed, and restores the stack pointer. -/
private theorem popped (x : Word) :
    let u := (afterPush s w).writeR lr x
    u.load (u.r sp) = s.r (field w 0 4) ∧
      u.writeR sp (u.r sp + 4#32) =
        { s.writeR lr x with memory := storeLE s.memory (s.r sp - 4#32) (s.r (field w 0 4)) } := by
  have below : ((afterPush s w).writeR lr x).r sp = s.r sp - 4#32 := rfl
  simp only [below, sub_add]
  refine ⟨loadLE_storeLE (by decide) (by decide) _, ?_⟩
  simp only [State.writeR, afterPush, State.store, State.mk.injEq, and_self, and_true]
  funext q
  by_cases stack : q = sp
  · subst stack
    rfl
  · simp [stack]

/-- Writing the pc does not depend on the memory and leaves it. -/
theorem bxWritePc_memory (m : Word → BitVec 8) (v : Word) (ran : s.bxWritePc v = some s') :
    ({ s with memory := m } : State).bxWritePc v = some { s' with memory := m } ∧
    s'.memory = s.memory := by
  unfold State.bxWritePc at ran ⊢
  split at ran
  · rename_i thumb
    rw [if_pos thumb, ← Option.some.inj ran]
    exact ⟨rfl, rfl⟩
  · rename_i arm
    rw [if_neg arm]
    split at ran
    · cases ran
    · rename_i whole
      rw [if_neg whole, ← Option.some.inj ran]
      exact ⟨rfl, rfl⟩

/-- An access whose condition does not hold. -/
private theorem run_skip (has : wordMatches d loadStorePattern = true) (conditional : Conditional d)
    (fails : condHolds (field d 28 4) s.flags = false) (offset steps : Nat) (arm : s.thumb = false)
    (fetched : s.load (place base offset) = d) :
    runOol (steps + 1) (s.goto (place base offset)) =
      runOol steps (s.goto (place base (offset + 4))) := by
  have ran := execArm_class (s := s.goto (place base offset)) conditional has rfl
  rw [goto_flags, fails, if_neg Bool.false_ne_true] at ran
  rw [run_on arm fetched (by rw [fails, Bool.and_false]) ran, nextArm, goto_goto, goto_pc]
  rw [show place base offset + 4#32 = place base (offset + 4) from place_add base offset 4]

private theorem run_blxRegA1_fails (arm : s.thumb = false)
    (aligned : s.pc.toNat % 4 = 0 ∧ base.toNat % 4 = 0) (cond : field w 28 4 ≠ 15#4)
    (fails : condHolds (field w 28 4) s.flags = false)
    (loaded : Loaded s base (blxCode w (s.pc + 4#32) handler origin)) :
    runOol 4 (s.goto (place base 0)) = some (nextArm s) := by
  have first := loaded_arm loaded (k := 0) rfl
  have second := loaded_arm loaded (k := 1) rfl
  have third := loaded_arm loaded (k := 2) rfl
  have last := loaded_arm loaded (k := 3) rfl
  have next := loaded_arm loaded (k := 4) rfl
  have push : wordMatches (pushed w) loadStorePattern = true :=
    matches_of_inside pushed_matches (by decide)
  have access (d : Word) (has : wordMatches d loadStorePattern = true) :
      wordMatches (conditionally w d) loadStorePattern = true := by
    rwa [conditionally, matches_patch (by decide)]
  have pushes : Conditional (pushed w) :=
    ⟨not_matches_of_conflict push (by decide), by rwa [pushed_condition]⟩
  rw [run_skip push pushes (by rwa [pushed_condition]) 0 3 arm first,
    run_skip (access _ (by decide)) (conditional_copied _ (by decide) cond)
      (by rwa [copied_condition]) 4 2 arm second,
    run_skip (access _ (by decide)) (conditional_copied _ (by decide) cond)
      (by rwa [copied_condition]) 8 1 arm third,
    run_next 0 arm aligned.2 rfl last next (sum_aligned aligned.1 rfl)]
  rfl

/-- The push of the stack pointer is UNPREDICTABLE. -/
private theorem run_push_sp (arm : s.thumb = false) (stack : field w 0 4 = sp)
    (cond : field w 28 4 ≠ 15#4)
    (holds : condHolds (field w 28 4) s.flags = true)
    (loaded : Loaded s base (blxCode w x handler origin)) (steps : Nat) :
    runOol steps (s.goto (place base 0)) = none := by
  have first := loaded_arm loaded (k := 0) rfl
  have push : execArm (pushed w) (s.goto (place base 0)) = _ :=
    exec_push rfl (by rw [stack]; decide) cond holds
  rw [if_pos stack] at push
  cases steps with
  | zero => rfl
  | succ steps =>
    simp only [runOol, step, goto_thumb, arm, goto_load, goto_pc, first, push, Bool.false_eq_true,
      ↓reduceIte, Option.bind_none]

/-- What the code does with another register. -/
private theorem run_push_pop (arm : s.thumb = false) (aligned : base.toNat % 4 = 0)
    (known : field w 0 4 ≠ 15#4) (saved : field w 0 4 ≠ sp)
    (cond : field w 28 4 ≠ 15#4) (holds : condHolds (field w 28 4) s.flags = true)
    (loaded : Loaded s base (blxCode w x handler origin))
    (clear : Clear s base (blxCode w x handler origin)) (steps : Nat) :
    runOol (steps + 3) (s.goto (place base 0)) =
      if (s.r sp).toNat % 4 = 0 then
        ({ s.writeR lr x with memory := storeLE s.memory (s.r sp - 4#32) (s.r (field w 0 4)) } :
          State).bxWritePc (s.r (field w 0 4))
      else none := by
  have later : Loaded (afterPush s w) base (blxCode w x handler origin) := loaded_store loaded clear _
  have third := loaded_arm later (k := 2) rfl
  have still : ((afterPush s w).writeR lr x).thumb = false := arm
  have pop := run_pop still cond holds third steps
  have below : (((afterPush s w).writeR lr x).r sp).toNat % 4 = (s.r sp).toNat % 4 := by
    show (s.r sp - 4#32).toNat % 4 = _
    rw [BitVec.toNat_sub]
    simp
    omega
  rw [below, (popped x).1, (popped x).2] at pop
  rw [run_to_pop arm aligned known saved cond holds loaded clear (steps + 1), pop]

/-- A run that ends does not depend on the steps that are left. -/
private theorem run_longer {steps : Nat} (done : runOol steps s = some s') (more : Nat) :
    runOol (steps + more) s = some s' := by
  induction steps generalizing s with
  | zero => cases done
  | succ steps ih =>
    rw [Nat.succ_add]
    simp only [runOol] at done ⊢
    cases next : step s with
    | none =>
      rw [next] at done
      cases done
    | some t =>
      rw [next, Option.bind_some] at done
      rw [Option.bind_some]
      split at done
      · rename_i leaves
        rw [if_pos leaves, done]
      · rename_i stays
        rw [if_neg stays]
        exact ih done

private theorem run_blxRegA1_iff (arm : s.thumb = false)
    (aligned : s.pc.toNat % 4 = 0 ∧ base.toNat % 4 = 0)
    (blx : wordMatches w blxRegPattern = true) (conditional : Conditional w)
    (ran : execArm w s = some s')
    (loaded : Loaded s base (blxCode w (s.pc + 4#32) handler origin))
    (clear : Clear s base (blxCode w (s.pc + 4#32) handler origin)) :
    (∃ steps t, runOol steps (s.goto (place base 0)) = some t ∧ SameButBelow s t s') ↔ Savable s w := by
  have branch := execArm_class (s := s) conditional blx (show _ = [(blxRegPattern, _)] from rfl)
  rw [ran] at branch
  cases holds : condHolds (field w 28 4) s.flags with
  | false =>
    rw [holds, if_neg Bool.false_ne_true] at branch
    obtain rfl : s' = nextArm s := Option.some.inj branch
    refine iff_of_true ⟨4, nextArm s, run_blxRegA1_fails arm aligned conditional.2 holds loaded,
      ⟨rfl, rfl, rfl, rfl, fun _ _ => rfl⟩⟩ ?_
    intro held
    rw [holds] at held
    cases held
  | true =>
    rw [holds, if_pos rfl, execBlxReg] at branch
    by_cases pc : field w 0 4 = 15#4
    · simp only [pc, if_pos] at branch
      cases branch
    simp only [pc, if_false, return_address arm, State.readR] at branch
    constructor
    · rintro ⟨steps, t, done, -⟩
      intro
      by_cases stack : field w 0 4 = sp
      · rw [run_push_sp arm stack conditional.2 holds loaded steps] at done
        cases done
      · refine ⟨stack, ?_⟩
        by_contra misaligned
        have ended := run_longer done 3
        rw [run_push_pop arm aligned.2 pc stack conditional.2 holds loaded clear steps,
          if_neg misaligned] at ended
        cases ended
    · intro savable
      obtain ⟨saved, whole⟩ := savable holds
      obtain ⟨ran, memory⟩ := bxWritePc_memory
        (storeLE s.memory (s.r sp - 4#32) (s.r (field w 0 4))) _ branch.symm
      refine ⟨3, { s' with memory := storeLE s.memory (s.r sp - 4#32) (s.r (field w 0 4)) }, ?_,
        ⟨rfl, rfl, rfl, rfl, ?_⟩⟩
      · rw [run_push_pop arm aligned.2 pc saved conditional.2 holds loaded clear 0, if_pos whole]
        exact ran
      · intro a free
        rw [memory]
        exact storeLE_apart (Nat.not_lt.mp free) _

end ARM

/-! ## Templates for Thumb -/

section Thumb

variable {h half : BitVec 16}

theorem place_thumb {offset : Nat} (aligned : base.toNat % 4 = 2) (odd : offset % 4 = 2) :
    (place base offset).toNat % 4 = 0 := by
  rw [place, BitVec.toNat_add, BitVec.toNat_ofNat]
  omega

theorem align_near {x : Word} (aligned : x.toNat % 4 = 0) : align (x + 2#32) = x := by
  have dvd : 2 ^ 2 ∣ x.toNat := Nat.dvd_of_mod_eq_zero aligned
  have apart : x &&& 2#32 = 0#32 := by
    apply BitVec.eq_of_getLsbD_eq
    intro i inside
    have two : (2#32).getLsbD i = decide (i = 1) := by
      have all : ∀ i < 32, (2#32).getLsbD i = decide (i = 1) := by decide
      exact all i inside
    rw [BitVec.getLsbD_and, two]
    by_cases one : i = 1
    · rw [one, getLsbD_of_dvd dvd (by decide)]
      rfl
    · simp [one]
  have cleared : align (x ||| 2#32) = align x := by
    apply BitVec.eq_of_getLsbD_eq
    intro i inside
    have bits : ∀ i < 32, (2#32).getLsbD i = true → (~~~3#32 : Word).getLsbD i = false := by decide
    rw [align, align, BitVec.getLsbD_and, BitVec.getLsbD_and, BitVec.getLsbD_or]
    cases two : (2#32).getLsbD i with
    | false => rw [Bool.or_false]
    | true => rw [bits i inside two, Bool.and_false, Bool.and_false]
  rw [BitVec.add_eq_or_of_and_eq_zero x 2#32 apart, cleared, align_of_aligned aligned]

theorem leave_thumb {target : Word} (thumb : s.thumb = true) (even : target.toNat % 2 = 0) :
    s.bxWritePc (target ||| 1#32) = some (s.goto target) := by
  rw [bxWritePc_thumb even, State.goto, ← thumb]

/-- The constants after the instructions. -/
theorem loaded_constant {insns : Code} {words : List Word}
    (loaded : Loaded s base (insns ++ armCode words 0)) {k : Nat}
    (there : words[k]? = some w) : s.load (place base (2 * insns.length + 4 * k)) = w := by
  obtain ⟨lower, higher⟩ := armCode_get there
  have found := loaded_word loaded (insns.length + 2 * k) (w := w)
    (by rw [List.getElem?_append_right (by omega), Nat.add_sub_cancel_left, lower])
    (by rw [List.getElem?_append_right (by
      omega), show insns.length + 2 * k + 1 - insns.length = 2 * k + 1 by omega, higher])
  rwa [show 2 * (insns.length + 2 * k) = 2 * insns.length + 4 * k by omega] at found

/-- A Thumb instruction whose pattern rules out all others. -/
private theorem execThumb_class {p : Pattern} {effect : BitVec 16 → State → Option State}
    (has : wordMatches h p = true)
    (only : (thumbInstructions.filter fun entry => !conflict 16 p entry.1) = [(p, effect)]) :
    execThumb h s = effect h s := by
  rw [execThumb, decodeWith_filter has, only]
  simp [decodeWith, has]

private theorem run_narrow {offset steps : Nat} (thumb : s.thumb = true)
    (fetched : s.loadHalf (place base offset) = h)
    (narrow : isWide h = false) (ok : execThumb h (s.goto (place base offset)) = some s') :
    runOol (steps + 1) (s.goto (place base offset)) = runOol steps s' := by
  simp only [runOol, step, loadsPc, goto_thumb, thumb, goto_loadHalf, goto_pc, fetched, narrow, ok,
    Bool.false_and, Bool.false_eq_true,
    ↓reduceIte, Option.bind_some]

/-- `ldr.w pc` from `distance` bytes after what is read from the pc, by its second halfword. -/
structure PcLoad (half : BitVec 16) (distance : Nat) : Prop where
  has : wordMatches (0xf8df#16 ++ half) loadLiteralWidePattern = true
  leaves : wordMatches (0xf8df#16 ++ half) "11111000-10111111111------------" = true
  up : (0xf8df#16 ++ half : Word).getLsbD 23 = true
  target : field (0xf8df#16 ++ half : Word) 12 4 = 15#4
  offset : (field (0xf8df#16 ++ half : Word) 0 12).setWidth 32 = BitVec.ofNat 32 distance
  whole : distance % 4 = 0

private theorem run_jump {distance : Nat} (shape : PcLoad half distance) (offset start steps : Nat)
    (thumb : s.thumb = true)
    (near : offset + 4 = start ∨ offset + 4 = start + 2) (aligned : (place base start).toNat % 4 = 0)
    (fetched : s.loadHalf (place base offset) = 0xf8df#16)
    (fetched' : s.loadHalf (place base (offset + 2)) = half) :
    runOol (steps + 1) (s.goto (place base offset)) =
      s.bxWritePc (s.load (place base (start + distance))) := by
  have wide : isWide 0xf8df#16 = true := by decide
  have pc : align (s.goto (place base offset)).readPc = place base start := by
    rw [readPc_thumb (s := s.goto (place base offset)) thumb, goto_pc,
      show place base offset + 4#32 = place base (offset + 4) from place_add base offset 4]
    rcases near with here | before
    · rw [here, align_of_aligned aligned]
    · rw [before, ← place_add, align_near aligned]
  have inside : place base (start + distance) &&& 3#32 = 0#32 := by
    rw [and_three_iff, ← place_add, BitVec.toNat_add, BitVec.toNat_ofNat]
    have := shape.whole
    omega
  have ran : execThumb2 (0xf8df#16 ++ half) (s.goto (place base offset)) =
      s.bxWritePc (s.load (place base (start + distance))) := by
    rw [execThumb2, shape.has, if_pos rfl]
    simp only [execLoadLiteralWide, shape.target, shape.up, shape.offset, pc, place_add, inside,
      ↓reduceIte, goto_load]
    rfl
  have next : place base offset + 2#32 = place base (offset + 2) := place_add base offset 2
  simp only [runOol, step, loadsPc, goto_thumb, thumb, goto_loadHalf, goto_pc, fetched, next,
    fetched', wide, shape.leaves, ran,
    Bool.true_and, ↓reduceIte, Option.bind_fun_some]

private theorem pcLoad_four : PcLoad 0xf004#16 4 := by
  constructor <;> decide

private theorem pcLoad_eight : PcLoad 0xf008#16 8 := by
  constructor <;> decide

private theorem not_wide {k : Nat} {v : BitVec k} (lowest : Nat) (whole : lowest + k = 16)
    (high : field h lowest k = v)
    (small : (v.toNat + 1) * 2 ^ lowest ≤ 0xe800) : isWide h = false := by
  have top : h.toNat / 2 ^ lowest = v.toNat := toNat_high lowest whole high
  have bound : h.toNat < (v.toNat + 1) * 2 ^ lowest := by
    rw [← top]
    exact Nat.lt_mul_of_div_lt (Nat.lt_succ_self _) (Nat.two_pow_pos lowest)
  rw [isWide, decide_eq_false_iff_not, BitVec.le_def]
  exact Nat.not_le.mpr (Nat.lt_of_lt_of_le bound small)

theorem even_sum {x y : Word} (first : x.toNat % 2 = 0) (second : y.toNat % 2 = 0) :
    (x + y).toNat % 2 = 0 := by
  rw [BitVec.toNat_add]
  omega

variable {w : BitVec 16}

/-- A load of the register that the instruction names, at the start of the code. -/
private theorem run_loading {access : BitVec 16} (n steps : Nat)
    (has : wordMatches access loadLiteralPattern = true)
    (distance : ((field access 0 8 ++ 0#2).setWidth 32 : Word) = BitVec.ofNat 32 n)
    (thumb : s.thumb = true) (aligned : base.toNat % 4 = 2)
    (fetched : s.loadHalf (place base 0) = loading (w.setWidth 32) access) :
    runOol (steps + 1) (s.goto (place base 0)) =
      runOol steps ((s.writeR (low w 8) (s.load (place base (2 + n)))).goto (place base 2)) := by
  have still : wordMatches (loading (w.setWidth 32) access) loadLiteralPattern = true := by
    rwa [loading, matches_patch (by decide)]
  have register : low (loading (w.setWidth 32) access) 8 = low w 8 := by
    rw [low, loading, field_patch_inside 8 3 (by decide), field_moved _ 8 3 8 (by decide),
      field_setWidth w 8 3 (by decide)]
    rfl
  have imm : field (loading (w.setWidth 32) access) 0 8 = field access 0 8 :=
    field_patch_outside 0 8 (by decide) (by decide)
  have pc : align (s.goto (place base 0)).readPc = place base 2 := by
    rw [readPc_thumb (s := s.goto (place base 0)) thumb, goto_pc,
      show place base 0 + 4#32 = place base 2 + 2#32 from
      (place_add base 0 4).trans (place_add base 2 2).symm]
    exact align_near (place_thumb aligned rfl)
  have next : place base 0 + 2#32 = place base 2 := place_add base 0 2
  refine run_narrow thumb fetched (not_wide 11 rfl (field_of_matches still 11 5 (by decide))
    (by decide)) ?_
  rw [execThumb_class still (show _ = [(loadLiteralPattern, _)] from rfl)]
  simp only [execLoadLiteral, register, imm, distance, pc, place_add, nextThumb, writeR_pc, goto_pc,
    next, goto_load]
  rfl

variable {handler origin : Word}

private theorem run_adrT1 (thumb : s.thumb = true)
    (aligned : s.pc.toNat % 2 = 0 ∧ base.toNat % 4 = 2) (adr : wordMatches w adrPattern = true)
    (loaded : Loaded s base ([loading (w.setWidth 32) 0x4801#16, 0xf8df#16, 0xf004#16] ++
      armCode [architecturalValue s.pc (w.setWidth 32) .adrT1Val, (s.pc + 2#32) ||| 1#32, handler,
        origin] 0)) :
    runOol 2 (s.goto (place base 0)) = execThumb w s := by
  have value := loaded_constant loaded (k := 0) rfl
  have next := loaded_constant loaded (k := 1) rfl
  have is : architecturalValue s.pc (w.setWidth 32) .adrT1Val =
      align s.readPc + (field w 0 8 ++ 0#2).setWidth 32 := by
    rw [architecturalValue, field_setWidth w 0 8 (by decide), readPc_thumb thumb]
    rfl
  have still (v : Word) : (s.writeR (low w 8) v).thumb = true := thumb
  rw [run_loading 4 1 (by decide) rfl thumb aligned.2 (loaded_half loaded 0 rfl),
    show s.load (place base (2 + 4)) = _ from value,
    run_jump pcLoad_four 2 6 0 (still _) (.inl rfl) (place_thumb aligned.2 rfl)
      (loaded_half loaded 1 rfl) (loaded_half loaded 2 rfl),
    writeR_load, show s.load (place base (6 + 4)) = _ from next,
    leave_thumb (still _) (even_sum aligned.1 rfl),
    execThumb_class adr (show _ = [(adrPattern, _)] from rfl), is]
  rfl

private theorem low_ne_pc (w : BitVec 16) (at_ : Nat) : low w at_ ≠ 15#4 := by
  have small : (low w at_).toNat < 8 := by
    rw [low, BitVec.toNat_setWidth]
    exact Nat.lt_of_le_of_lt (Nat.mod_le _ _) (field w at_ 3).isLt
  intro pc
  rw [pc] at small
  exact absurd small (by decide)

theorem readR_writeR {n : BitVec 4} (known : n ≠ 15#4) (s : State) (v : Word) :
    (s.writeR n v).readR n = v := by
  rw [State.readR, if_neg known]
  exact if_pos rfl

theorem writeR_writeR (n : BitVec 4) (s : State) (v v' : Word) :
    (s.writeR n v).writeR n v' = s.writeR n v' := by
  simp only [State.writeR, State.mk.injEq, and_true]
  funext q
  by_cases same : q = n <;> simp [same]

/-- The load through the register goes on with the next instruction. -/
private theorem exec_loadThrough (s : State) (a : Word) :
    isWide (loadThrough (w.setWidth 32)) = false ∧
      execThumb (loadThrough (w.setWidth 32)) (s.goto a) =
        some (((s.writeR (low w 8) (s.load (s.readR (low w 8))))).goto (a + 2#32)) := by
  have still : wordMatches (loadThrough (w.setWidth 32)) loadPattern = true := by
    rw [loadThrough, matches_patch (by decide), loadBase, matches_patch (by decide)]
    decide
  have transferred : low (loadThrough (w.setWidth 32)) 0 = low w 8 := by
    rw [low, loadThrough, field_patch_inside 0 3 (by decide), field_moved _ 8 3 0 (by decide),
      field_setWidth w 8 3 (by decide)]
    rfl
  have through : low (loadThrough (w.setWidth 32)) 3 = low w 8 := by
    rw [low, loadThrough, field_patch_outside 3 3 (by decide) (by decide), loadBase,
      field_patch_inside 3 3 (by decide),
      field_moved _ 8 3 3 (by decide), field_setWidth w 8 3 (by decide)]
    rfl
  have imm : field (loadThrough (w.setWidth 32)) 6 5 = 0#5 := by
    rw [loadThrough, field_patch_outside 6 5 (by decide) (by decide), loadBase,
      field_patch_outside 6 5 (by decide) (by decide)]
    decide
  have register : (s.goto a).readR (low w 8) = s.readR (low w 8) := by
    rw [State.readR, State.readR, if_neg (low_ne_pc w 8), if_neg (low_ne_pc w 8), goto_r]
  refine ⟨not_wide 11 rfl (field_of_matches still 11 5 (by decide)) (by decide), ?_⟩
  rw [execThumb_class still (show _ = [(loadPattern, _)] from rfl)]
  simp only [execLoad, transferred, through, imm, register, nextThumb, writeR_pc, goto_pc, goto_load]
  rw [show ((0#5 ++ 0#2).setWidth 32 : Word) = 0#32 from rfl, BitVec.add_zero]
  rfl

private theorem run_ldrLitT1 (thumb : s.thumb = true) (aligned : s.pc.toNat % 2 = 0 ∧ base.toNat % 4 = 2)
    (ldr : wordMatches w loadLiteralPattern = true)
    (loaded : Loaded s base ([loading (w.setWidth 32) 0x4802#16, loadThrough (w.setWidth 32),
      0xf8df#16, 0xf008#16, 0xdede#16] ++
      armCode [architecturalValue s.pc (w.setWidth 32) .ldrLitT1Address, (s.pc + 2#32) ||| 1#32,
        handler, origin] 0)) :
    runOol 3 (s.goto (place base 0)) = execThumb w s := by
  have value := loaded_constant loaded (k := 0) rfl
  have next := loaded_constant loaded (k := 1) rfl
  have is : architecturalValue s.pc (w.setWidth 32) .ldrLitT1Address =
      align s.readPc + (field w 0 8 ++ 0#2).setWidth 32 := by
    rw [architecturalValue, field_setWidth w 0 8 (by decide), readPc_thumb thumb]
    rfl
  have still (v : Word) : (s.writeR (low w 8) v).thumb = true := thumb
  have through := exec_loadThrough (w :=
    w) (s.writeR (low w 8) (architecturalValue s.pc (w.setWidth 32) .ldrLitT1Address)) (place base 2)
  rw [readR_writeR (low_ne_pc w 8), writeR_load, writeR_writeR,
    show place base 2 + 2#32 = place base 4 from place_add base 2 2] at through
  rw [run_loading 8 2 (by decide) rfl thumb aligned.2 (loaded_half loaded 0 rfl),
    show s.load (place base (2 + 8)) = _ from value,
    run_narrow (still _) (loaded_half loaded 1 rfl) through.1 through.2,
    run_jump pcLoad_eight 4 6 0 (still _) (.inr rfl) (place_thumb aligned.2 rfl)
      (loaded_half loaded 2 rfl) (loaded_half loaded 3 rfl),
    writeR_load, show s.load (place base (6 + 8)) = _ from next,
    leave_thumb (still _) (even_sum aligned.1 rfl),
    execThumb_class ldr (show _ = [(loadLiteralPattern, _)] from rfl), is]
  rfl

/-! ### Branches -/

/-- What a branch that is taken does, by the bit for the Thumb instruction set. -/
theorem leave_branch {target : Word} (thumb : s.thumb = true) (even : target.toNat % 2 = 0) :
    s.bxWritePc (target ||| 1#32) = some (s.branchWritePc target) := by
  rw [leave_thumb thumb even, State.branchWritePc, thumb, if_pos rfl, even_of_even even]

private theorem branch_even (start : Word) {k : Nat} (x : BitVec k) (even : start.toNat % 2 = 0) :
    (start + 4#32 + (x ++ 0#1).signExtend 32).toNat % 2 = 0 :=
  even_sum (even_sum even rfl) (signed_offset x 32)

private theorem run_bT2 (thumb : s.thumb = true) (aligned : s.pc.toNat % 2 = 0 ∧ base.toNat % 4 = 2)
    (b : wordMatches w branchT2Pattern = true)
    (loaded : Loaded s base ([0xf8df#16, 0xf004#16, 0xdede#16] ++
      armCode [architecturalValue s.pc (w.setWidth 32) .bT2Target, handler, origin] 0)) :
    runOol 1 (s.goto (place base 0)) = execThumb w s := by
  have target := loaded_constant loaded (k := 0) rfl
  have is : architecturalValue s.pc (w.setWidth 32) .bT2Target =
      (s.pc + 4#32 + (field w 0 11 ++ 0#1).signExtend 32) ||| 1#32 := by
    rw [architecturalValue, field_setWidth w 0 11 (by decide)]
  rw [run_jump pcLoad_four 0 2 0 thumb (.inr rfl) (place_thumb aligned.2 rfl)
    (loaded_half loaded 0 rfl) (loaded_half loaded 1 rfl),
    show s.load (place base (2 + 4)) = _ from target, is,
    leave_branch thumb (branch_even s.pc _ aligned.1),
    execThumb_class b (show _ = [(branchT2Pattern, _)] from rfl), execBranchT2, readPc_thumb thumb]

/-- The rest of the templates with a branch over the first jump. -/
private theorem run_over {first : BitVec 16} {target : Word} (taken : Bool) (thumb : s.thumb = true)
    (aligned : base.toNat % 4 = 2)
    (narrow : isWide first = false) (even : s.pc.toNat % 2 = 0 ∧ target.toNat % 2 = 0)
    (branch : execThumb first (s.goto (place base 0)) =
      some (s.goto (place base (if taken then 6 else 2))))
    (loaded : Loaded s base ([first, 0xf8df#16, 0xf004#16, 0xf8df#16, 0xf004#16] ++
      armCode [(s.pc + 2#32) ||| 1#32, target ||| 1#32, handler, origin] 0)) :
    runOol 2 (s.goto (place base 0)) = some (if taken then s.branchWritePc target else nextThumb s) := by
  have next := loaded_constant loaded (k := 0) rfl
  have there := loaded_constant loaded (k := 1) rfl
  rw [run_narrow thumb (loaded_half loaded 0 rfl) narrow branch]
  cases taken with
  | true =>
    rw [if_pos rfl, if_pos rfl,
      run_jump pcLoad_four 6 10 0 thumb (.inl rfl) (place_thumb aligned rfl)
        (loaded_half loaded 3 rfl) (loaded_half loaded 4 rfl),
      show s.load (place base (10 + 4)) = _ from there, leave_branch thumb even.2]
  | false =>
    rw [if_neg Bool.false_ne_true, if_neg Bool.false_ne_true,
      run_jump pcLoad_four 2 6 0 thumb (.inl rfl) (place_thumb aligned rfl)
        (loaded_half loaded 1 rfl) (loaded_half loaded 2 rfl),
      show s.load (place base (6 + 4)) = _ from next, leave_thumb thumb (even_sum even.1 rfl), nextThumb]

/-- Over the first jump. -/
private theorem branch_over {x : Word} (thumb : s.thumb = true) (aligned : base.toNat % 4 = 2)
    (distance : x = 2#32) :
    (s.goto (place base 0)).branchWritePc ((s.goto (place base 0)).readPc + x) =
      s.goto (place base 6) := by
  have even : (place base 6).toNat % 2 = 0 := by
    have := place_thumb aligned (show 6 % 4 = 2 from rfl)
    omega
  have sum : (s.goto (place base 0)).readPc + x = place base 6 := by
    rw [distance, readPc_thumb (s := s.goto (place base 0)) thumb, goto_pc,
      show place base 0 + 4#32 = place base 4 from place_add base 0 4]
    exact place_add base 4 2
  rw [sum, State.branchWritePc, goto_thumb, thumb, if_pos rfl, even_of_even even, goto_goto]

private theorem run_bT1 (thumb : s.thumb = true) (aligned : s.pc.toNat % 2 = 0 ∧ base.toNat % 4 = 2)
    (b : wordMatches w condBranchPattern = true)
    (conditional : field w 9 3 ≠ 7#3)
    (loaded : Loaded s base ([branchOver (w.setWidth 32), 0xf8df#16, 0xf004#16, 0xf8df#16, 0xf004#16] ++
      armCode [(s.pc + 2#32) ||| 1#32, architecturalValue s.pc (w.setWidth 32) .bT1Target, handler,
        origin] 0)) :
    runOol 2 (s.goto (place base 0)) = execThumb w s := by
  have is : architecturalValue s.pc (w.setWidth 32) .bT1Target =
      (s.pc + 4#32 + (field w 0 8 ++ 0#1).signExtend 32) ||| 1#32 := by
    rw [architecturalValue, field_setWidth w 0 8 (by decide)]
  rw [is] at loaded
  have still : wordMatches (branchOver (w.setWidth 32)) condBranchPattern = true := by
    rw [branchOver, matches_patch (by decide)]
    decide
  have cond : field (branchOver (w.setWidth 32)) 8 4 = field w 8 4 := by
    rw [branchOver, field_patch_inside 8 4 (by decide), field_moved _ 8 4 8 (by decide),
      field_setWidth w 8 4 (by decide)]
  have kind : field (branchOver (w.setWidth 32)) 9 3 = field w 9 3 := by
    have part (v : BitVec 16) : field v 9 3 = field (field v 8 4) 1 3 := by
      ext i h
      simp [field]
      grind
    rw [part, cond, ← part]
  have imm : field (branchOver (w.setWidth 32)) 0 8 = 1#8 := by
    rw [branchOver, field_patch_outside 0 8 (by decide) (by decide)]
    decide
  have branch : execThumb (branchOver (w.setWidth 32)) (s.goto (place base 0)) =
      some (s.goto (place base (if condHolds (field w 8 4) s.flags then 6 else 2))) := by
    rw [execThumb_class still (show _ = [(condBranchPattern, _)] from rfl), execCondBranch, kind,
      if_neg conditional, cond, goto_flags]
    by_cases holds : condHolds (field w 8 4) s.flags = true
    · rw [if_pos holds, if_pos holds, imm,
        branch_over thumb aligned.2 (show ((1#8 ++ 0#1).signExtend 32 : Word) = 2#32 from rfl)]
    · rw [if_neg holds, if_neg holds, nextThumb, goto_goto, goto_pc,
        show place base 0 + 2#32 = place base 2 from place_add base 0 2]
  rw [run_over _ thumb aligned.2 (not_wide 12 rfl (field_of_matches still 12 4 (by decide)) (by decide))
    ⟨aligned.1, branch_even s.pc _ aligned.1⟩ branch loaded,
    execThumb_class b (show _ = [(condBranchPattern, _)] from rfl), execCondBranch,
    if_neg conditional, readPc_thumb thumb]
  split <;> rfl

private theorem run_cbzT1 (thumb : s.thumb = true) (aligned : s.pc.toNat % 2 = 0 ∧ base.toNat % 4 = 2)
    (cbz : wordMatches w compareBranchPattern = true)
    (loaded : Loaded s base ([compareOver (w.setWidth 32), 0xf8df#16, 0xf004#16, 0xf8df#16, 0xf004#16] ++
      armCode [(s.pc + 2#32) ||| 1#32, architecturalValue s.pc (w.setWidth 32) .cbzT1Target,
        handler, origin] 0)) :
    runOol 2 (s.goto (place base 0)) = execThumb w s := by
  have is : architecturalValue s.pc (w.setWidth 32) .cbzT1Target =
      (s.pc + 4#32 + (field w 9 1 ++ field w 3 5 ++ 0#1).setWidth 32) ||| 1#32 := by
    rw [architecturalValue, field_setWidth w 9 1 (by decide), field_setWidth w 3 5 (by decide)]
  rw [is] at loaded
  have even : (s.pc + 4#32 + (field w 9 1 ++ field w 3 5 ++ 0#1).setWidth 32).toNat % 2 = 0 :=
    even_sum (even_sum aligned.1 rfl) (unsigned_offset (field w 9 1 ++ field w 3 5) 32)
  have still : wordMatches (compareOver (w.setWidth 32)) compareBranchPattern = true := by
    rw [compareOver, matches_patch (by decide), compareFirst, matches_patch (by decide)]
    decide
  have register : low (compareOver (w.setWidth 32)) 0 = low w 0 := by
    rw [low, compareOver, field_patch_inside 0 3 (by decide), field_moved _ 0 3 0 (by decide),
      field_setWidth w 0 3 (by decide)]
    rfl
  have nonzero : (compareOver (w.setWidth 32)).getLsbD 11 = w.getLsbD 11 := by
    have bit : field (compareOver (w.setWidth 32)) 11 1 = field w 11 1 := by
      rw [compareOver, field_patch_outside 11 1 (by decide) (by decide), compareFirst,
        field_patch_inside 11 1 (by decide),
        field_moved _ 11 1 11 (by decide), field_setWidth w 11 1 (by decide)]
    rw [field_bit w] at bit
    exact field_bit_iff.mp bit
  have imm : field (compareOver (w.setWidth 32)) 9 1 = 0#1 ∧
      field (compareOver (w.setWidth 32)) 3 5 = 1#5 := by
    rw [compareOver, field_patch_outside 9 1 (by decide) (by decide),
      field_patch_outside 3 5 (by decide) (by decide), compareFirst,
      field_patch_outside 9 1 (by decide) (by decide), field_patch_outside 3 5 (by decide) (by decide)]
    decide
  have read : (s.goto (place base 0)).readR (low w 0) = s.readR (low w 0) := by
    rw [State.readR, State.readR, if_neg (low_ne_pc w 0), if_neg (low_ne_pc w 0), goto_r]
  have branch : execThumb (compareOver (w.setWidth 32)) (s.goto (place base 0)) =
      some (s.goto (place base (if (s.readR (low w 0) == 0#32) != w.getLsbD 11 then 6 else 2))) := by
    rw [execThumb_class still (show _ = [(compareBranchPattern, _)] from rfl), execCompareBranch,
      register, nonzero, imm.1, imm.2, read]
    by_cases taken : ((s.readR (low w 0) == 0#32) != w.getLsbD 11) = true
    · rw [if_pos taken, if_pos taken,
        branch_over thumb aligned.2 (show ((0#1 ++ 1#5 ++ 0#1).setWidth 32 : Word) = 2#32 from rfl)]
    · rw [if_neg taken, if_neg taken, nextThumb, goto_goto, goto_pc,
        show place base 0 + 2#32 = place base 2 from place_add base 0 2]
  rw [run_over _ thumb aligned.2 (not_wide 12 rfl (field_of_matches still 12 4 (by decide))
    (by decide)) ⟨aligned.1, even⟩ branch loaded,
    execThumb_class cbz (show _ = [(compareBranchPattern, _)] from rfl), execCompareBranch,
    readPc_thumb thumb]

end Thumb

/-! ## Selection -/

/-- What is known of an ARM instruction for which a template is selected. -/
private def armEncoded (w : Word) : TemplateSelect.Selection → Prop
  | .template .bA1 => wordMatches w "----1010------------------------" = true ∧
  wordMatches w "1111----------------------------" = false
  | .template .blImmA1 =>
    wordMatches w "----1011------------------------" = true ∧
      wordMatches w "1111----------------------------" = false
  | .template .blxImmA2 => wordMatches w blxImmPattern = true
  | .template .blxRegA1 =>
    wordMatches w "----00010010------------0011----" = true ∧
      wordMatches w "1111----------------------------" = false
  | .template template => branchTemplate template = false
  | _ => True

open TemplateSelect in
private theorem arm_encoded (w : Word) : armEncoded w (templateSelectArm w) := by
  refine CompletionProofs.selectOn_next (fun _ => trivial) fun _ => ?_
  refine CompletionProofs.selectOn_next (fun _ => trivial) fun _ => ?_
  refine CompletionProofs.selectOn_next (fun _ => trivial) fun _ => ?_
  refine CompletionProofs.selectOn_next (fun blx => blx) fun _ => ?_
  refine CompletionProofs.selectOn_next (fun _ => trivial) fun conditional => ?_
  have dataproc : armEncoded w (decodeArmDataproc w) := by
    unfold decodeArmDataproc
    simp only
    split_ifs <;> trivial
  have loadStore : armEncoded w (decodeArmLoadStore w) := by
    unfold decodeArmLoadStore
    simp only
    split_ifs <;> trivial
  have loadStoreMultiple : armEncoded w (decodeArmLoadStoreMultiple w) := by
    unfold decodeArmLoadStoreMultiple
    simp only
    split_ifs <;> trivial
  have loadStoreExtra : armEncoded w (decodeArmLoadStoreExtra w) := by
    unfold decodeArmLoadStoreExtra
    simp only
    split_ifs <;> trivial
  have loadStoreDual : armEncoded w (decodeArmLoadStoreDual w) := by
    unfold decodeArmLoadStoreDual
    simp only
    split_ifs
    · trivial
    · trivial
    · exact loadStoreExtra
  have nopc (rn rd rs rm : Bool) : armEncoded w (decodeArmNopc rn rd rs rm w) := by
    unfold decodeArmNopc
    split_ifs <;> trivial
  have exchange (bx : wordMatches w "----00010010------------0001----" = true) :
      armEncoded w (decodeArmBranch w) := by
    have clear : w.getLsbD 5 = false := field_bit_iff.mp (field_of_matches bx 5 1 (by decide))
    unfold decodeArmBranch
    rw [clear]
    split_ifs <;> trivial
  have link (blx : wordMatches w "----00010010------------0011----" = true) :
      armEncoded w (decodeArmBranch w) := by
    unfold decodeArmBranch
    split_ifs
    · trivial
    · exact ⟨blx, conditional⟩
    · trivial
  have generic : armEncoded w (.template .armGeneric) := rfl
  have null : armEncoded w .null := trivial
  apply CompletionProofs.selectOn_of_match null
  simp only [List.forall_mem_cons, List.not_mem_nil, false_imp_iff, implies_true, and_true,
    dataproc, loadStore, loadStoreMultiple,
    loadStoreExtra, loadStoreDual, nopc, null, generic, true_and]
  exact ⟨exchange, link, fun b => ⟨b, conditional⟩, fun bl => ⟨bl, conditional⟩⟩

private theorem conditional_of_encoded
    (conditional : wordMatches w "1111----------------------------" = false) : Conditional w := by
  have other (all : wordMatches w "1111----------------------------" = true) : False := by
    rw [conditional] at all
    cases all
  refine ⟨Bool.eq_false_iff.mpr fun blx => other (matches_of_inside blx (by decide)),
    fun all => other ?_⟩
  exact matches_of_known [Bits.ofField 28 15#4] (by simpa [← field_eq_iff] using all) (by decide)

/-- A `blx` with a register whose other bits are as they should be. -/
private theorem blx_of_effect (conditional : Conditional w)
    (has : wordMatches w "----00010010------------0011----" = true)
    (ran : execArm w s = some s') : wordMatches w blxRegPattern = true := by
  by_contra other
  have decoded : decodeWith armInstructions w = none := by
    rw [decodeWith_filter has, show (armInstructions.filter fun entry => !conflict 32 _ entry.1) =
      [(blxRegPattern, execBlxReg)] from rfl]
    simp [decodeWith, other]
  rw [execArm, conditional.1, if_neg Bool.false_ne_true, if_neg conditional.2, decoded] at ran
  cases ran

private theorem sameButBelow_before {insn : Insn} {s t t' : State} {pc : Word} :
    SameButBelow (insn.before s pc) t t' ↔ SameButBelow s t t' :=
  ⟨fun ⟨r, pc, thumb, flags, memory⟩ => ⟨r, pc, thumb, flags, memory⟩,
    fun ⟨r, pc, thumb, flags, memory⟩ => ⟨r, pc, thumb, flags, memory⟩⟩

/-- The templates for branches of ARM, and for branches and literals of 16-bit
Thumb, do what the instruction does at its own address, exactly if they do not
have to save the stack pointer itself or to save on a stack that is not aligned. -/
theorem branch_templates_preserve_iff {insn : Insn} {template : Template} {s s' : State}
    {pc base handler : Word} {code : Code}
    (branch : branchTemplate template = true) (selected : insn.selection = .template template)
    (aligned : insn.Aligned pc base)
    (filled : templateGetHandler template pc handler insn.word insn.kind = some code)
    (loaded : Loaded s base code)
    (clear : template = .blxRegA1 → Clear s base code) (ran : insn.exec s pc = some s') :
    (∃ steps t, runOol steps (insn.before s base) = some t ∧ SameButBelow s t s') ↔
    (template = .blxRegA1 → Savable s insn.word) := by
  have start : insn.before s base = (insn.before s pc).goto (place base 0) := by
    rw [place, BitVec.add_zero]
    rfl
  have same : SameButBelow s s' s' := ⟨rfl, rfl, rfl, rfl, fun _ _ => rfl⟩
  have preserved {steps : Nat} (other : template ≠ .blxRegA1)
      (run : runOol steps ((insn.before s pc).goto (place base 0)) = insn.exec s pc) :
      (∃ steps t, runOol steps (insn.before s base) = some t ∧ SameButBelow s t s') ↔
      (template = .blxRegA1 → Savable s insn.word) :=
    iff_of_true ⟨steps, s', by rw [start, run, ran], same⟩ fun is => absurd is other
  cases insn with
  | arm w =>
    have encoded := arm_encoded w
    rw [show templateSelectArm w = .template template from selected] at encoded
    cases template with
    | bA1 =>
      have conditional := conditional_of_encoded encoded.2
      have target : encodes w .bA1Target = true := by rw [encodes, encoded.1, encoded.2]; rfl
      obtain rfl := Option.some.inj ((filled_bA1 pc handler w target).symm.trans filled)
      exact preserved (by decide) (run_bA1 rfl aligned encoded.1 conditional loaded)
    | blImmA1 =>
      have conditional := conditional_of_encoded encoded.2
      have target : encodes w .blImmA1Target = true := by rw [encodes, encoded.1, encoded.2]; rfl
      obtain rfl := Option.some.inj ((filled_blImmA1 pc handler w target).symm.trans filled)
      exact preserved (by decide) (run_blImmA1 rfl aligned encoded.1 conditional loaded)
    | blxImmA2 =>
      obtain rfl := Option.some.inj ((filled_blxImmA2 pc handler w encoded).symm.trans filled)
      exact preserved (by decide) (run_blxImmA2 rfl aligned encoded loaded)
    | blxRegA1 =>
      have conditional := conditional_of_encoded encoded.2
      obtain rfl := Option.some.inj ((filled_blxRegA1 pc handler w).symm.trans filled)
      have saves := run_blxRegA1_iff (s :=
        (Insn.arm w).before s pc) rfl aligned (blx_of_effect conditional encoded.1 ran) conditional ran
        loaded (clear rfl)
      simp only [sameButBelow_before] at saves
      rw [start, saves]
      exact ⟨fun savable _ => savable, fun savable => savable rfl⟩
    | _ => cases encoded.symm.trans branch
  | thumb w =>
    have encoded := CompletionProofs.thumb_encoded w
    rw [show templateSelectThumb w = .template template from selected] at encoded
    cases template with
    | adrT1 =>
      obtain rfl := Option.some.inj ((filled_adrT1 pc handler encoded).symm.trans filled)
      exact preserved (by decide) (run_adrT1 rfl aligned encoded loaded)
    | ldrLitT1 =>
      obtain rfl := Option.some.inj ((filled_ldrLitT1 pc handler encoded).symm.trans filled)
      exact preserved (by decide) (run_ldrLitT1 rfl aligned encoded loaded)
    | bT1 =>
      obtain rfl := Option.some.inj ((filled_bT1 pc handler encoded.1 encoded.2).symm.trans filled)
      have conditional : field w 9 3 ≠ 7#3 := by
        intro other
        have known : execThumb w ((Insn.thumb w).before s pc) = execCondBranch w _ :=
          execThumb_class encoded.1 (show _ = [(condBranchPattern, _)] from rfl)
        rw [execCondBranch, if_pos other] at known
        cases known.symm.trans ran
      exact preserved (by decide) (run_bT1 rfl aligned encoded.1 conditional loaded)
    | bT2 =>
      obtain rfl := Option.some.inj ((filled_bT2 pc handler encoded).symm.trans filled)
      exact preserved (by decide) (run_bT2 rfl aligned encoded loaded)
    | cbzT1 =>
      obtain rfl := Option.some.inj ((filled_cbzT1 pc handler encoded).symm.trans filled)
      exact preserved (by decide) (run_cbzT1 rfl aligned encoded loaded)
    | thumbGeneric => cases branch
    | _ => cases encoded

/-- A state with the code of a template for `blx` at 0x9000, the stack at 0x7000 and 0x4001 in all
other registers. -/
def blxState (w : Word) : State where
  r := fun n => if n = sp then 0x7000#32 else 0x4001#32
  pc := 0x8000#32
  thumb := false
  flags := ⟨false, false, false, false⟩
  memory := fun a =>
    let offset := (a - 0x9000#32).toNat
    field ((blxCode w 0x8004#32 0xa000#32 0x8000#32).getD (offset / 2) 0#16) (8 * (offset % 2)) 8

/-- `blx r3` at 0x8000. -/
theorem blx_r3_preserved :
    ∃ s' steps t, (Insn.arm 0xe12fff33#32).exec (blxState 0xe12fff33#32) 0x8000#32 = some s' ∧
      runOol steps ((Insn.arm 0xe12fff33#32).before (blxState 0xe12fff33#32) 0x9000#32) = some t ∧
      SameButBelow (blxState 0xe12fff33#32) t s' := by
  have executed : ((Insn.arm 0xe12fff33#32).exec (blxState 0xe12fff33#32) 0x8000#32).isSome =
      true := by decide
  obtain ⟨s', ran⟩ := Option.isSome_iff_exists.mp executed
  have loaded : Loaded (blxState 0xe12fff33#32) 0x9000#32
      (blxCode 0xe12fff33#32 0x8004#32 0xa000#32 0x8000#32) := by
    show ∀ i, (h : i < 14) → _
    decide
  have clear : Clear (blxState 0xe12fff33#32) 0x9000#32
      (blxCode 0xe12fff33#32 0x8004#32 0xa000#32 0x8000#32) := by
    show ∀ i < 28, ¬(_ < 4)
    decide
  have preserved := @branch_templates_preserve_iff (.arm 0xe12fff33#32) .blxRegA1 _ _ _ _ _ _ rfl
    (by decide) ⟨rfl, rfl⟩
    (filled_blxRegA1 0x8000#32 0xa000#32 0xe12fff33#32) loaded (fun _ => clear) ran
  obtain ⟨steps, t, done, same⟩ := preserved.mpr fun _ _ => ⟨by decide, by decide⟩
  exact ⟨s', steps, t, ran, done, same⟩

/-- `blx sp` at 0x8000. -/
theorem blx_sp_not_preserved :
    templateSelectArm 0xe12fff3d#32 = .template .blxRegA1 ∧
      templateGetHandler .blxRegA1 0x8000#32 0xa000#32 0xe12fff3d#32 .arm =
        some (blxCode 0xe12fff3d#32 0x8004#32 0xa000#32 0x8000#32) ∧
      Loaded (blxState 0xe12fff3d#32) 0x9000#32 (blxCode 0xe12fff3d#32 0x8004#32 0xa000#32 0x8000#32) ∧
      ((Insn.arm 0xe12fff3d#32).exec (blxState 0xe12fff3d#32) 0x8000#32).isSome = true ∧
      ∀ steps, runOol steps ((Insn.arm 0xe12fff3d#32).before (blxState 0xe12fff3d#32) 0x9000#32) =
        none := by
  have loaded : Loaded (blxState 0xe12fff3d#32) 0x9000#32
      (blxCode 0xe12fff3d#32 0x8004#32 0xa000#32 0x8000#32) := by
    show ∀ i, (h : i < 14) → _
    decide
  exact ⟨by decide, filled_blxRegA1 0x8000#32 0xa000#32 0xe12fff3d#32, loaded, by decide, fun steps =>
    run_push_sp (s := (Insn.arm 0xe12fff3d#32).before (blxState 0xe12fff3d#32) 0x9000#32) rfl
      (by decide) (by decide) (by decide) loaded steps⟩

end Adbi.ArmOolProofs
