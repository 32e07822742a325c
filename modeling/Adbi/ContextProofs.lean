import Adbi.A64Context
import Adbi.ArmContext
import Mathlib.Tactic.IntervalCases

/-! A handler sees the registers, the flags and the pc of the tracepoint hit, and
the instruction that is executed out of line afterwards finds them as they were.
The frame has to fit below the stack pointer, and an accessor cannot return more
of CPSR than `mrs` reads. -/
namespace Adbi.ContextProofs
open Adbi.Lib

/-! ## A64 -/

section
open Adbi.A64 (State Flags Address)
open Adbi.A64Context

variable {s s' : State} {constants : Constants}

/-- The state in which the handler starts. -/
def atHandler (constants : Constants) (s : State) : State := run constants beforeHandler s

section
variable {r q rt1 rt2 : BitVec 5} {offset value : BitVec 64} {constant : Constants → BitVec 64}

@[simp] theorem next_x : s.next.x = s.x := rfl
@[simp] theorem next_sp : s.next.sp = s.sp := rfl
@[simp] theorem next_memory : s.next.memory = s.memory := rfl
@[simp] theorem next_flags : s.next.flags = s.flags := rfl
@[simp] theorem next_simd : s.next.simd = s.simd := rfl

theorem writeX_x (register : r ≠ 31#5) : (s.writeX r value).x q = if q = r then value else s.x q := by
  rw [State.writeX, if_neg register]

@[simp] theorem writeX_sp : (s.writeX r value).sp = s.sp := by
  unfold State.writeX
  split <;> rfl

@[simp] theorem writeX_memory : (s.writeX r value).memory = s.memory := by
  unfold State.writeX
  split <;> rfl

@[simp] theorem writeX_flags : (s.writeX r value).flags = s.flags := by
  unfold State.writeX
  split <;> rfl

@[simp] theorem writeX_simd : (s.writeX r value).simd = s.simd := by
  unfold State.writeX
  split <;> rfl

@[simp] theorem stpPre_x : (exec constants s (.stpPre rt1 rt2 offset)).x = s.x := rfl
@[simp] theorem stpPre_sp : (exec constants s (.stpPre rt1 rt2 offset)).sp = s.sp + offset := rfl
@[simp] theorem stpPre_memory : (exec constants s (.stpPre rt1 rt2 offset)).memory =
    storeLE (storeLE s.memory (s.sp + offset) (s.x rt1)) (s.sp + offset + 8#64) (s.x rt2) := rfl
@[simp] theorem stpPre_flags : (exec constants s (.stpPre rt1 rt2 offset)).flags = s.flags := rfl
@[simp] theorem stpPre_simd : (exec constants s (.stpPre rt1 rt2 offset)).simd = s.simd := rfl

@[simp] theorem stp_x : (exec constants s (.stp rt1 rt2 offset)).x = s.x := rfl
@[simp] theorem stp_sp : (exec constants s (.stp rt1 rt2 offset)).sp = s.sp := rfl
@[simp] theorem stp_memory : (exec constants s (.stp rt1 rt2 offset)).memory =
    storeLE (storeLE s.memory (s.sp + offset) (s.x rt1)) (s.sp + offset + 8#64) (s.x rt2) := rfl
@[simp] theorem stp_flags : (exec constants s (.stp rt1 rt2 offset)).flags = s.flags := rfl
@[simp] theorem stp_simd : (exec constants s (.stp rt1 rt2 offset)).simd = s.simd := rfl

theorem exec_ldrConstant : exec constants s (.ldrConstant r constant) =
    (s.writeX r (constant constants)).next := rfl
theorem exec_movSp : exec constants s (.movSp r) = (s.writeX r s.sp).next := rfl
theorem exec_mrsNzcv : exec constants s (.mrsNzcv r) = (s.writeX r (nzcv s.flags)).next := rfl

theorem ldp_x (first : rt1 ≠ 31#5) (second : rt2 ≠ 31#5) : (exec constants s (.ldp rt1 rt2 offset)).x q =
    if q = rt2 then loadLE 64 s.memory (s.sp + offset + 8#64)
    else if q = rt1 then loadLE 64 s.memory (s.sp + offset) else s.x q := by
  show ((s.writeX rt1 _).writeX rt2 _).x q = _
  rw [writeX_x second, writeX_x first]

@[simp] theorem ldp_sp : (exec constants s (.ldp rt1 rt2 offset)).sp = s.sp := by
  show ((s.writeX rt1 _).writeX rt2 _).sp = _
  rw [writeX_sp, writeX_sp]

@[simp] theorem ldp_memory : (exec constants s (.ldp rt1 rt2 offset)).memory = s.memory := by
  show ((s.writeX rt1 _).writeX rt2 _).memory = _
  rw [writeX_memory, writeX_memory]

@[simp] theorem ldp_flags : (exec constants s (.ldp rt1 rt2 offset)).flags = s.flags := by
  show ((s.writeX rt1 _).writeX rt2 _).flags = _
  rw [writeX_flags, writeX_flags]

@[simp] theorem ldp_simd : (exec constants s (.ldp rt1 rt2 offset)).simd = s.simd := by
  show ((s.writeX rt1 _).writeX rt2 _).simd = _
  rw [writeX_simd, writeX_simd]

@[simp] theorem blr_x : (exec constants s (.blr r)).x = (s.writeX 30#5 (s.pc + 4#64)).x := rfl
@[simp] theorem blr_sp : (exec constants s (.blr r)).sp = (s.writeX 30#5 (s.pc + 4#64)).sp := rfl
@[simp] theorem blr_memory : (exec constants s (.blr r)).memory =
    (s.writeX 30#5 (s.pc + 4#64)).memory := rfl
@[simp] theorem blr_simd : (exec constants s (.blr r)).simd = (s.writeX 30#5 (s.pc + 4#64)).simd := rfl

end

private theorem frame_size : (-0x10#64 + -0xb0#64) = -192#64 := by decide

theorem frame_sp : (atHandler constants s).sp = s.sp + -192#64 := by
  simp only [atHandler, run, beforeHandler, List.foldl_cons, List.foldl_nil, stpPre_sp, stp_sp,
    blr_sp, exec_ldrConstant, exec_movSp,
    exec_mrsNzcv, next_sp, writeX_sp]
  rw [BitVec.add_assoc, frame_size]

/-- What the code stores, by the distance from the stack pointer at the hit. -/
def frame (constants : Constants) (s : State) : List (BitVec 64 × BitVec 64) :=
  [(-16#64, s.x 20#5), (-8#64, s.x 30#5), (-192#64, s.x 29#5), (-184#64, constants.nextPc),
    (-32#64, s.x 19#5), (-24#64, nzcv s.flags),
   (-48#64, s.x 16#5), (-40#64, s.x 17#5), (-64#64, s.x 14#5), (-56#64, s.x 15#5),
   (-80#64, s.x 12#5), (-72#64, s.x 13#5),
   (-96#64, s.x 10#5), (-88#64, s.x 11#5), (-112#64, s.x 8#5), (-104#64, s.x 9#5),
   (-128#64, s.x 6#5), (-120#64, s.x 7#5),
   (-144#64, s.x 4#5), (-136#64, s.x 5#5), (-160#64, s.x 2#5), (-152#64, s.x 3#5),
   (-176#64, s.x 0#5), (-168#64, s.x 1#5)]

theorem frame_memory : (atHandler constants s).memory =
    storeFrame s.memory s.sp (frame constants s) := by
  simp (disch := decide) only [atHandler, run, beforeHandler, List.foldl_cons, List.foldl_nil,
    stpPre_sp, stp_sp, stpPre_memory,
    stp_memory, stpPre_x, stp_x, stpPre_flags, blr_memory, exec_ldrConstant, exec_movSp,
    exec_mrsNzcv, next_sp, next_x, next_flags,
    next_memory, writeX_sp, writeX_memory, writeX_flags, writeX_x, storeFrame, frame,
    BitVec.add_assoc, BitVec.reduceAdd,
    BitVec.reduceNeg, BitVec.ofNat_eq_ofNat, BitVec.reduceEq, reduceIte]

theorem frame_pointer : (atHandler constants s).x 19#5 = s.sp + -192#64 := by
  simp (disch := decide) only [atHandler, run, beforeHandler, List.foldl_cons, List.foldl_nil,
    stpPre_sp, stp_sp, stpPre_x, stp_x,
    blr_x, exec_ldrConstant, exec_movSp, exec_mrsNzcv, next_sp, next_x, writeX_sp, writeX_x,
    BitVec.add_assoc, BitVec.reduceAdd,
    BitVec.reduceNeg, BitVec.ofNat_eq_ofNat, BitVec.reduceEq, reduceIte]

/-- The registers that the code does not touch. -/
theorem kept_x (r : BitVec 5) (other : r ∉ [16#5, 19#5, 20#5, 29#5, 30#5]) :
    (atHandler constants s).x r = s.x r := by
  simp only [List.mem_cons, List.not_mem_nil, or_false, not_or] at other
  obtain ⟨not16, not19, not20, not29, not30⟩ := other
  simp (disch := decide) only [atHandler, run, beforeHandler, List.foldl_cons, List.foldl_nil,
    stpPre_sp, stp_sp, stpPre_x, stp_x,
    blr_x, exec_ldrConstant, exec_movSp, exec_mrsNzcv, next_sp, next_x, writeX_sp, writeX_x,
    BitVec.ofNat_eq_ofNat, not16, not19, not20,
    not29, not30, if_false]

theorem frame_simd : (atHandler constants s).simd = s.simd := by
  simp only [atHandler, run, beforeHandler, List.foldl_cons, List.foldl_nil, stpPre_simd, stp_simd,
    blr_simd, exec_ldrConstant,
    exec_movSp, exec_mrsNzcv, next_simd, writeX_simd]

private theorem frame_apart : ((frame constants s).map Prod.fst).Pairwise fun x y => Apart 64 x y := by
  show List.Pairwise _ [-16#64, -8#64, -192#64, -184#64, -32#64, -24#64, -48#64, -40#64, -64#64,
      -56#64, -80#64, -72#64, -96#64, -88#64,
    -112#64, -104#64, -128#64, -120#64, -144#64, -136#64, -160#64, -152#64, -176#64, -168#64]
  decide

private theorem frame_inside : ∀ entry ∈ frame constants s, (-entry.1).toNat ≤ 192 ∧
    8 ≤ (-entry.1).toNat := by
  simp [frame]

theorem frame_read {distance value : BitVec 64} (member : (distance, value) ∈ frame constants s) :
    loadLE 64 (atHandler constants s).memory (s.sp + distance) = value := by
  rw [frame_memory]
  exact storeFrame_seen (by decide) (by decide) frame_apart member

/-- What a member of the context structure holds. -/
theorem member_read {offset value : BitVec 64} (stored : (-192#64 + offset, value) ∈ frame constants s) :
    A64Context.member (atHandler constants s) offset = value := by
  rw [A64Context.member, frame_pointer, BitVec.add_assoc]
  exact frame_read stored

private theorem low_stored {i : Nat} (low : i ≤ 17) :
    (-192#64 + (regsOffset + BitVec.ofNat 64 (8 * i)), s.x (BitVec.ofNat 5 i)) ∈ frame constants s := by
  unfold frame regsOffset
  interval_cases i
  all_goals simp

/-- `get_reg` returns what was in the register at the hit. -/
theorem getReg_entry (constants : Constants) (s : State) {i : Nat} (below : i < 32) :
    getReg (atHandler constants s) i = some (s.readX (BitVec.ofNat 5 i)) := by
  by_cases low : i ≤ 17
  · have register : BitVec.ofNat 5 i ≠ 31#5 := fun same => by
      have number := congrArg BitVec.toNat same
      simp at number
      omega
    unfold getReg
    rw [if_pos low, member_read (low_stored low), State.readX, if_neg register]
  · unfold getReg
    rw [if_neg low]
    have saved (r : BitVec 5) (other : r ∉ [16#5, 19#5, 20#5, 29#5, 30#5]) :
        some ((atHandler constants s).x r) = some (s.x r) := by
      rw [kept_x r other]
    obtain rfl | rfl | rfl | rfl | rfl | rfl | rfl | rfl | rfl | rfl | rfl | rfl | rfl | rfl :
        i = 18 ∨ i = 19 ∨ i = 20 ∨ i = 21 ∨ i = 22 ∨
        i = 23 ∨ i = 24 ∨ i = 25 ∨ i = 26 ∨ i = 27 ∨ i = 28 ∨ i = 29 ∨ i = 30 ∨ i = 31 := by omega
    · exact saved 18#5 (by decide)
    · exact congrArg some (member_read (by simp [frame, regsOffset, State.readX]))
    · exact congrArg some (member_read (by simp [frame, r20Offset, State.readX]))
    · exact saved 21#5 (by decide)
    · exact saved 22#5 (by decide)
    · exact saved 23#5 (by decide)
    · exact saved 24#5 (by decide)
    · exact saved 25#5 (by decide)
    · exact saved 26#5 (by decide)
    · exact saved 27#5 (by decide)
    · exact saved 28#5 (by decide)
    · exact congrArg some (member_read (by simp [frame, A64Context.fpOffset, State.readX]))
    · exact congrArg some (member_read (by simp [frame, savedLrOffset, State.readX]))
    · rfl

theorem getSp_entry : getSp (atHandler constants s) = s.sp := by
  rw [getSp, frame_pointer, BitVec.add_assoc,
    show -192#64 + A64Context.contextSize = 0#64 by decide, BitVec.add_zero]

theorem getNzcv_entry : getNzcv (atHandler constants s) = nzcv s.flags :=
  member_read (by simp [frame, nzcvOffset])

theorem getNextPc_entry : getNextPc (atHandler constants s) = constants.nextPc :=
  member_read (by simp [frame, A64Context.lrOffset])

/-- What the code stores stands below the stack pointer. -/
theorem frame_below (fits : 192 ≤ s.sp.toNat) {a : Address} (above : s.sp ≤ a) :
    (atHandler constants s).memory a = s.memory a := by
  rw [frame_memory]
  exact storeFrame_below 192 fits above frame_inside

/-! ### What the handler leaves -/

/-- The state at the label `ool`. -/
def atOol (constants : Constants) (returned : State) : State := run constants afterHandler returned

variable {returned : State}

@[simp] theorem msrNzcv_x {r : BitVec 5} : (exec constants s (.msrNzcv r)).x = s.x := rfl
@[simp] theorem msrNzcv_sp {r : BitVec 5} : (exec constants s (.msrNzcv r)).sp = s.sp := rfl
@[simp] theorem msrNzcv_memory {r : BitVec 5} : (exec constants s (.msrNzcv r)).memory = s.memory := rfl
@[simp] theorem msrNzcv_flags {r : BitVec 5} :
    (exec constants s (.msrNzcv r)).flags = flagsOf (s.x r) := rfl
@[simp] theorem msrNzcv_simd {r : BitVec 5} : (exec constants s (.msrNzcv r)).simd = s.simd := rfl
@[simp] theorem ldrPost_x {r : BitVec 5} {offset : BitVec 64} :
    (exec constants s (.ldrPost r offset)).x = (s.writeX r (loadLE 64 s.memory s.sp)).x := rfl
@[simp] theorem ldrPost_sp {r : BitVec 5} {offset : BitVec 64} :
    (exec constants s (.ldrPost r offset)).sp = s.sp + offset := rfl
@[simp] theorem ldrPost_memory {r : BitVec 5} {offset : BitVec 64} :
    (exec constants s (.ldrPost r offset)).memory = (s.writeX r (loadLE 64 s.memory s.sp)).memory := rfl
@[simp] theorem ldrPost_flags {r : BitVec 5} {offset : BitVec 64} :
    (exec constants s (.ldrPost r offset)).flags = (s.writeX r (loadLE 64 s.memory s.sp)).flags := rfl
@[simp] theorem ldrPost_simd {r : BitVec 5} {offset : BitVec 64} :
    (exec constants s (.ldrPost r offset)).simd = (s.writeX r (loadLE 64 s.memory s.sp)).simd := rfl

/-- Registers after pairs of them were loaded from the stack. -/
def loaded (memory : Address → BitVec 8) (sp : BitVec 64) :
    List (BitVec 5 × BitVec 5 × BitVec 64) → (BitVec 5 → BitVec 64) → BitVec 5 → BitVec 64
  | [], x => x
  | (rt1, rt2, offset) :: rest, x => loaded memory sp rest fun q =>
      if q = rt2 then loadLE 64 memory (sp + (offset + 8#64))
      else if q = rt1 then loadLE 64 memory (sp + offset) else x q

/-- A run of loads of pairs. -/
theorem run_loads (constants : Constants) (s : State)
    {loads : List (BitVec 5 × BitVec 5 × BitVec 64)}
    (registers : ∀ l ∈ loads, l.1 ≠ 31#5 ∧ l.2.1 ≠ 31#5) :
    let after := run constants (loads.map fun l => .ldp l.1 l.2.1 l.2.2) s
    after.x = loaded s.memory s.sp loads s.x ∧ after.sp = s.sp ∧ after.memory = s.memory ∧
      after.flags = s.flags ∧
      after.simd = s.simd := by
  induction loads generalizing s with
  | nil => exact ⟨rfl, rfl, rfl, rfl, rfl⟩
  | cons l rest ih =>
    obtain ⟨first, second⟩ := registers l List.mem_cons_self
    have x : (exec constants s (.ldp l.1 l.2.1 l.2.2)).x = fun q =>
        if q = l.2.1 then loadLE 64 s.memory (s.sp + (l.2.2 + 8#64))
        else if q = l.1 then loadLE 64 s.memory (s.sp + l.2.2) else s.x q := by
      funext q
      rw [ldp_x first second, BitVec.add_assoc]
    have later := ih (s := exec constants s (.ldp l.1 l.2.1 l.2.2)) fun m member =>
      registers m (List.mem_cons_of_mem _ member)
    simp only [x, ldp_sp, ldp_memory, ldp_flags, ldp_simd] at later
    exact later

/-- The loads before the flags are restored. -/
def loads : List (BitVec 5 × BitVec 5 × BitVec 64) :=
  [(0, 1, 0x10#64), (2, 3, 0x20#64), (4, 5, 0x30#64), (6, 7, 0x40#64), (8, 9, 0x50#64),
    (10, 11, 0x60#64), (12, 13, 0x70#64),
   (14, 15, 0x80#64), (16, 17, 0x90#64), (19, 20, 0xa0#64)]

/-- The state at the label, part by part. -/
theorem ool_parts (constants : Constants) (returned : State) :
    (atOol constants returned).sp = returned.sp + 0xc0#64 ∧
    (atOol constants returned).memory = returned.memory ∧ (atOol constants returned).simd =
      returned.simd ∧
    (atOol constants returned).flags =
      flagsOf (loaded returned.memory returned.sp loads returned.x 20#5) ∧
    ∀ r, (atOol constants returned).x r =
      if r = 29#5 then loadLE 64 returned.memory returned.sp
      else if r = 30#5 then loadLE 64 returned.memory (returned.sp + 0xb8#64)
      else if r = 20#5 then loadLE 64 returned.memory (returned.sp + 0xb0#64)
      else loaded returned.memory returned.sp loads returned.x r := by
  obtain ⟨x, sp, memory, flags, simd⟩ :=
    run_loads constants returned (show ∀ l ∈ loads, l.1 ≠ 31#5 ∧ l.2.1 ≠ 31#5 by simp [loads])
  have split : atOol constants returned = exec constants (exec constants (exec constants
      (run constants (loads.map fun l => .ldp l.1 l.2.1 l.2.2) returned) (.msrNzcv 20#5))
        (.ldp 20#5 30#5 0xb0#64))
      (.ldrPost 29#5 0xc0#64) := rfl
  rw [split]
  refine ⟨?_, ?_, ?_, ?_, fun r => ?_⟩
  · rw [ldrPost_sp, ldp_sp, msrNzcv_sp, sp]
  · rw [ldrPost_memory, writeX_memory, ldp_memory, msrNzcv_memory, memory]
  · rw [ldrPost_simd, writeX_simd, ldp_simd, msrNzcv_simd, simd]
  · rw [ldrPost_flags, writeX_flags, ldp_flags, msrNzcv_flags, x]
  · rw [ldrPost_x, writeX_x (by decide), ldp_x (by decide) (by decide), ldp_memory, ldp_sp,
      msrNzcv_memory, msrNzcv_sp, msrNzcv_x, memory,
      sp, x, BitVec.add_assoc, show 0xb0#64 + 8#64 = 0xb8#64 by decide]

theorem flagsOf_nzcv (flags : Flags) : flagsOf (nzcv flags) = flags := by
  obtain ⟨n, z, c, v⟩ := flags
  cases n <;> cases z <;> cases c <;> cases v <;> rfl

/-- The handler does not touch the frame. -/
theorem frame_kept (fits : 192 ≤ s.sp.toNat) (respects : Respects (atHandler constants s) returned)
    {offset value : BitVec 64}
    (member : (-192#64 + offset, value) ∈ frame constants s) :
    loadLE 64 returned.memory (returned.sp + offset) = value := by
  have place : returned.sp + offset = s.sp + (-192#64 + offset) :=
    by rw [respects.sp, frame_sp, BitVec.add_assoc]
  obtain ⟨low, high⟩ := frame_inside _ member
  rw [place, ← frame_read member]
  refine loadLE_congr fun i inside => respects.memory _ ?_
  rw [frame_sp, BitVec.le_def]
  generalize -192#64 + offset = distance at low high ⊢
  bv_omega

private theorem low_loaded {i : Nat} (low : i ≤ 17) (memory : Address → BitVec 8) (sp : BitVec 64)
    (x : BitVec 5 → BitVec 64) :
    loaded memory sp loads x (BitVec.ofNat 5 i) =
      loadLE 64 memory (sp + (regsOffset + BitVec.ofNat 64 (8 * i))) := by
  unfold loads regsOffset
  interval_cases i
  all_goals simp [loaded]

private theorem kept_loaded (r : BitVec 5) (other : ∀ l ∈ loads, r ≠ l.1 ∧ r ≠ l.2.1)
    (memory : Address → BitVec 8) (sp : BitVec 64)
    (x : BitVec 5 → BitVec 64) : loaded memory sp loads x r = x r := by
  generalize loads = list at other
  induction list generalizing x with
  | nil => rfl
  | cons l rest ih =>
    obtain ⟨first, second⟩ := other l List.mem_cons_self
    rw [loaded, ih _ fun m member => other m (List.mem_cons_of_mem _ member), if_neg second,
      if_neg first]

/-- At the label the state is that of the hit, apart from the memory below the stack pointer. -/
structure Transparent (s out : State) : Prop where
  x : ∀ r, r ≠ 31#5 → out.x r = s.x r
  sp : out.sp = s.sp
  flags : out.flags = s.flags
  memory : ∀ a, s.sp ≤ a → out.memory a = s.memory a
  simd : out.simd = s.simd

/-- Every register has its value back. -/
theorem x_restored (fits : 192 ≤ s.sp.toNat) (respects : Respects (atHandler constants s) returned)
    {r : BitVec 5} (register : r ≠ 31#5) :
    (atOol constants returned).x r = s.x r := by
  obtain ⟨-, -, -, -, x⟩ := ool_parts constants returned
  have kept {offset value : BitVec 64} (member : (-192#64 + offset, value) ∈ frame constants s) :
      loadLE 64 returned.memory (returned.sp + offset) = value := frame_kept fits respects member
  rw [x r]
  by_cases fp : r = 29#5
  · have stored : loadLE 64 returned.memory (returned.sp + 0#64) = s.x 29#5 := kept (by simp [frame])
    rw [BitVec.add_zero] at stored
    rw [if_pos fp, stored, fp]
  rw [if_neg fp]
  by_cases lr : r = 30#5
  · have stored : loadLE 64 returned.memory (returned.sp + 0xb8#64) = s.x 30#5 := kept (by simp [frame])
    rw [if_pos lr, stored, lr]
  rw [if_neg lr]
  by_cases twenty : r = 20#5
  · have stored : loadLE 64 returned.memory (returned.sp + 0xb0#64) = s.x 20#5 := kept (by simp [frame])
    rw [if_pos twenty, stored, twenty]
  rw [if_neg twenty]
  by_cases nineteen : r = 19#5
  · have place : loaded returned.memory returned.sp loads returned.x 19#5 =
        loadLE 64 returned.memory (returned.sp + 0xa0#64) := by
      simp [loads, loaded]
    have stored : loadLE 64 returned.memory (returned.sp + 0xa0#64) = s.x 19#5 := kept (by simp [frame])
    rw [nineteen, place, stored]
  by_cases low : r.toNat ≤ 17
  · have number : r = BitVec.ofNat 5 r.toNat := by simp
    rw [number, low_loaded low, kept (low_stored low)]
  · have saved : 18#5 ≤ r ∧ r ≤ 29#5 := by
      constructor <;> bv_omega
    have other : r ∉ [16#5, 19#5, 20#5, 29#5, 30#5] := by
      simp only [List.mem_cons, List.not_mem_nil, or_false, not_or]
      exact ⟨by bv_omega, nineteen, twenty, fp, lr⟩
    have apart : ∀ l ∈ loads, r ≠ l.1 ∧ r ≠ l.2.1 := by
      simp only [loads, List.mem_cons, List.not_mem_nil, or_false, forall_eq_or_imp, forall_eq]
      bv_omega
    rw [kept_loaded r apart, respects.saved r saved.1 saved.2, kept_x r other]

theorem a64_transparent (fits : 192 ≤ s.sp.toNat)
    (respects : Respects (atHandler constants s) returned) :
    Transparent s (atOol constants returned) := by
  obtain ⟨sp, memory, simd, flags, -⟩ := ool_parts constants returned
  refine ⟨fun r register => x_restored fits respects register, ?_, ?_, fun a above => ?_, ?_⟩
  · rw [sp, respects.sp, frame_sp, BitVec.add_assoc, show -192#64 + 0xc0#64 = 0#64 by decide,
      BitVec.add_zero]
  · have stored : loadLE 64 returned.memory (returned.sp + 0xa8#64) = nzcv s.flags :=
      frame_kept fits respects (by simp [frame])
    have twenty : loaded returned.memory returned.sp loads returned.x 20#5 =
        loadLE 64 returned.memory (returned.sp + 0xa8#64) := by
      simp [loads, loaded]
    rw [flags, twenty, stored, flagsOf_nzcv]
  · have entry : (atHandler constants s).sp ≤ a := by
      rw [frame_sp, BitVec.le_def]
      rw [BitVec.le_def] at above
      bv_omega
    rw [memory, respects.memory a entry, frame_below fits above]
  · rw [simd, respects.simd, frame_simd]

end

/-! ## A32 and Thumb -/

section
open Adbi.ArmContext

variable {s returned : State} {constants : Constants} {unknown : Word}

/-- The state in which the handler starts. -/
def armAtHandler (constants : Constants) (unknown : Word) (s : State) : State :=
  run constants unknown beforeHandler s

/-- What the code stores, by the distance from the stack pointer at the hit. -/
def armFrame (constants : Constants) (unknown : Word) (s : State) : List (Word × Word) :=
  [(-40#32, s.r 0#4), (-36#32, s.r 1#4), (-32#32, s.r 2#4), (-28#32, s.r 3#4), (-24#32, s.r 4#4),
    (-20#32, s.r 5#4), (-16#32, s.r 6#4),
   (-12#32, s.r 11#4), (-8#32, s.r 12#4), (-4#32, s.r 14#4), (-48#32, readCpsr unknown s.cpsr),
   (-44#32, constants.origPc)]

theorem arm_frame_memory : (armAtHandler constants unknown s).memory =
    storeFrame s.memory s.sp (armFrame constants unknown s) := by
  simp [armAtHandler, run, beforeHandler, exec, State.writeR, State.sp, storeAll, scratch,
    storeFrame, armFrame, BitVec.sub_eq_add_neg,
    BitVec.add_assoc]

theorem arm_frame_sp : (armAtHandler constants unknown s).sp = s.sp + -48#32 := by
  simp [armAtHandler, run, beforeHandler, exec, State.writeR, State.sp, scratch,
    BitVec.sub_eq_add_neg, BitVec.add_assoc]

theorem arm_frame_pointer : (armAtHandler constants unknown s).r 12#4 = s.sp + -48#32 := by
  simp [armAtHandler, run, beforeHandler, exec, State.writeR, State.sp, scratch,
    BitVec.sub_eq_add_neg, BitVec.add_assoc]

/-- The registers that the code does not touch. -/
theorem arm_kept_r (n : BitVec 4) (low : 4#4 ≤ n) (high : n ≤ 11#4) :
    (armAtHandler constants unknown s).r n = s.r n := by
  have other : n ≠ 0#4 ∧ n ≠ 1#4 ∧ n ≠ 3#4 ∧ n ≠ 12#4 ∧ n ≠ 13#4 ∧ n ≠ 14#4 := by
    refine ⟨?_, ?_, ?_, ?_, ?_, ?_⟩ <;> bv_omega
  simp [armAtHandler, run, beforeHandler, exec, State.writeR, other]

private theorem arm_frame_apart : ((armFrame constants unknown s).map Prod.fst).Pairwise fun x y =>
    Apart 32 x y := by
  show List.Pairwise _ [-40#32, -36#32, -32#32, -28#32, -24#32, -20#32, -16#32, -12#32, -8#32,
      -4#32, -48#32, -44#32]
  decide

private theorem arm_frame_inside : ∀ entry ∈ armFrame constants unknown s, (-entry.1).toNat ≤ 48 ∧
    4 ≤ (-entry.1).toNat := by
  simp [armFrame]

theorem arm_frame_read {distance value : Word}
    (member : (distance, value) ∈ armFrame constants unknown s) :
    loadLE 32 (armAtHandler constants unknown s).memory (s.sp + distance) = value := by
  rw [arm_frame_memory]
  exact storeFrame_seen (by decide) (by decide) arm_frame_apart member

/-- What a member of the context structure holds. -/
theorem arm_member_read {offset value : Word}
    (stored : (-48#32 + offset, value) ∈ armFrame constants unknown s) :
    ArmContext.member (armAtHandler constants unknown s) offset = value := by
  rw [ArmContext.member, arm_frame_pointer, BitVec.add_assoc]
  exact arm_frame_read stored

private theorem arm_low_stored {i : Nat} (low : i ≤ 6) :
    (-48#32 + (lowregsOffset + BitVec.ofNat 32 (4 * i)), s.r (BitVec.ofNat 4 i)) ∈ armFrame
      constants unknown s := by
  unfold armFrame lowregsOffset
  interval_cases i
  all_goals simp

/-- `get_reg` returns what was in the register at the hit, and the pc for number 15. -/
theorem arm_getReg_entry (constants : Constants) (unknown : Word) (s : State) {i : Nat}
    (below : i < 16) :
    getReg (armAtHandler constants unknown s) i = if i = 15 then constants.origPc
      else s.r (BitVec.ofNat 4 i) := by
  by_cases low : i ≤ 6
  · unfold getReg
    rw [if_pos low, arm_member_read (arm_low_stored low), if_neg (by omega)]
  · unfold getReg
    rw [if_neg low]
    obtain rfl | rfl | rfl | rfl | rfl | rfl | rfl | rfl | rfl : i = 7 ∨ i = 8 ∨ i = 9 ∨ i = 10 ∨
        i = 11 ∨ i = 12 ∨ i = 13 ∨ i = 14 ∨
        i = 15 := by omega
    · exact arm_kept_r 7#4 (by decide) (by decide)
    · exact arm_kept_r 8#4 (by decide) (by decide)
    · exact arm_kept_r 9#4 (by decide) (by decide)
    · exact arm_kept_r 10#4 (by decide) (by decide)
    · exact arm_member_read (by simp [armFrame, ArmContext.fpOffset])
    · exact arm_member_read (by simp [armFrame, ipOffset])
    · show (armAtHandler constants unknown s).r 12#4 + ArmContext.contextSize = s.sp
      rw [arm_frame_pointer, BitVec.add_assoc,
        show -48#32 + ArmContext.contextSize = 0#32 by decide, BitVec.add_zero]
    · exact arm_member_read (by simp [armFrame, ArmContext.lrOffset])
    · exact arm_member_read (by simp [armFrame, pcOffset])

theorem getCpsr_entry : getCpsr (armAtHandler constants unknown s) = readCpsr unknown s.cpsr :=
  arm_member_read (by simp [armFrame, cpsrOffset])

/-- The flags N, Z, C, V and Q and the bits GE. -/
def statusMask : Word := 0xf80f0000#32

theorem status_read (cpsr : Word) : readCpsr unknown cpsr &&& statusMask = cpsr &&& statusMask := by
  rw [readCpsr, statusMask, BitVec.and_or_distrib_right, BitVec.and_assoc, BitVec.and_assoc,
    show (0x3df#32 &&& 0xf80f0000#32) = 0#32 by decide,
    show (0xf8ff0000#32 &&& 0xf80f0000#32) = 0xf80f0000#32 by decide, BitVec.and_zero, BitVec.or_zero]

/-- What the code stores stands below the stack pointer. -/
theorem arm_frame_below (fits : 48 ≤ s.sp.toNat) {a : Word} (above : s.sp ≤ a) :
    (armAtHandler constants unknown s).memory a = s.memory a := by
  rw [arm_frame_memory]
  exact storeFrame_below 48 fits above arm_frame_inside

/-! ### What the handler leaves -/

/-- The state at the label `ool`. -/
def armAtOol (constants : Constants) (unknown : Word) (returned : State) : State :=
  run constants unknown afterHandler returned

/-- Registers after others were loaded from an address on. -/
def poppedFrom (memory : Word → BitVec 8) : Word → List (BitVec 4) → (BitVec 4 → Word) → BitVec 4 → Word
  | _, [], r => r
  | address, n :: rest, r =>
    poppedFrom memory (address + 4#32) rest fun q => if q = n then loadLE 32 memory address else r q

theorem loadAll_eq (s : State) (address : Word) (registers : List (BitVec 4)) :
    loadAll s address registers = { s with r := poppedFrom s.memory address registers s.r } := by
  induction registers generalizing s address with
  | nil => rfl
  | cons n rest ih => rw [loadAll, ih]; rfl

/-- A register that is not loaded keeps its value, and the others do not depend on theirs. -/
private theorem poppedFrom_congr {memory : Word → BitVec 8} {address : Word}
    {registers : List (BitVec 4)} {r r' : BitVec 4 → Word}
    {n : BitVec 4} (same : r n = r' n) :
    poppedFrom memory address registers r n = poppedFrom memory address registers r' n := by
  induction registers generalizing address r r' with
  | nil => exact same
  | cons m rest ih => exact ih (by rw [same])

private theorem poppedFrom_other {memory : Word → BitVec 8} {address : Word}
    {registers : List (BitVec 4)} {r : BitVec 4 → Word}
    {n : BitVec 4} (other : n ∉ registers) : poppedFrom memory address registers r n = r n := by
  induction registers generalizing address r with
  | nil => rfl
  | cons m rest ih =>
    simp only [List.mem_cons, not_or] at other
    rw [poppedFrom, ih other.2, if_neg other.1]

/-- The state at the label, part by part. -/
theorem arm_ool_parts (constants : Constants) (unknown : Word) (returned : State) :
    (armAtOol constants unknown returned).sp = returned.sp + 48#32 ∧
    (armAtOol constants unknown returned).memory = returned.memory ∧
    (armAtOol constants unknown returned).cpsr =
      writeFlags returned.cpsr (loadLE 32 returned.memory returned.sp) ∧
    ∀ n, n ≠ 13#4 → (armAtOol constants unknown returned).r n =
      poppedFrom returned.memory (returned.sp + 8#32) scratch
        (poppedFrom returned.memory returned.sp [0, 1] returned.r) n := by
  refine ⟨?_, ?_, ?_, fun n register => ?_⟩
  · simp [armAtOol, run, afterHandler, exec, loadAll_eq, State.writeR, State.sp, scratch,
      BitVec.add_assoc]
  · simp [armAtOol, run, afterHandler, exec, loadAll_eq, State.writeR]
  · simp [armAtOol, run, afterHandler, exec, loadAll_eq, State.writeR, poppedFrom]
  · simp [armAtOol, run, afterHandler, exec, loadAll_eq, State.writeR, State.sp, register]
    exact poppedFrom_congr (if_neg register)

theorem arm_low_popped {i : Nat} (low : i ≤ 6) (memory : Word → BitVec 8) (address : Word)
    (r : BitVec 4 → Word) :
    poppedFrom memory (address + 8#32) scratch r (BitVec.ofNat 4 i) =
      loadLE 32 memory (address + (lowregsOffset + BitVec.ofNat 32 (4 * i))) := by
  unfold scratch lowregsOffset
  interval_cases i
  all_goals simp [poppedFrom, BitVec.add_assoc]

/-- The handler does not touch the frame. -/
theorem arm_frame_kept (fits : 48 ≤ s.sp.toNat)
    (respects : Respects (armAtHandler constants unknown s) returned) {offset value : Word}
    (member : (-48#32 + offset, value) ∈ armFrame constants unknown s) :
    loadLE 32 returned.memory (returned.sp + offset) = value := by
  have place : returned.sp + offset = s.sp + (-48#32 + offset) :=
    by rw [respects.sp, arm_frame_sp, BitVec.add_assoc]
  obtain ⟨low, high⟩ := arm_frame_inside _ member
  rw [place, ← arm_frame_read member]
  refine loadLE_congr fun i inside => respects.memory _ ?_
  rw [arm_frame_sp, BitVec.le_def]
  generalize -48#32 + offset = distance at low high ⊢
  bv_omega

/-- At the label the state is that of the hit, apart from the memory below the stack pointer and the
status bits that are no flags. -/
structure ArmTransparent (s out : State) : Prop where
  r : ∀ n, n ≠ 15#4 → out.r n = s.r n
  flags : field out.cpsr 27 5 = field s.cpsr 27 5
  memory : ∀ a, s.sp ≤ a → out.memory a = s.memory a

private theorem field_and (x y : Word) (low length : Nat) :
    field (x &&& y) low length = field x low length &&& field y low length :=
  BitVec.extractLsb'_and

theorem flags_written (cpsr value : Word) : field (writeFlags cpsr value) 27 5 = field value 27 5 := by
  rw [writeFlags, field_or, field_and, field_and, show field 0x07ffffff#32 27 5 = 0#5 by decide,
    show field 0xf8000000#32 27 5 =
      BitVec.allOnes 5 by decide, BitVec.and_zero, BitVec.and_allOnes, BitVec.zero_or]

theorem flags_read (cpsr : Word) : field (readCpsr unknown cpsr) 27 5 = field cpsr 27 5 := by
  rw [readCpsr, field_or, field_and, field_and, show field 0x3df#32 27 5 = 0#5 by decide,
    show field 0xf8ff0000#32 27 5 =
      BitVec.allOnes 5 by decide, BitVec.and_zero, BitVec.and_allOnes, BitVec.or_zero]

/-- Every register has its value back. -/
theorem r_restored (fits : 48 ≤ s.sp.toNat)
    (respects : Respects (armAtHandler constants unknown s) returned) {n : BitVec 4}
    (register : n ≠ 15#4) : (armAtOol constants unknown returned).r n = s.r n := by
  obtain ⟨sp, -, -, r⟩ := arm_ool_parts constants unknown returned
  have kept {offset value : Word} (member : (-48#32 + offset, value) ∈ armFrame constants unknown s) :
      loadLE 32 returned.memory (returned.sp + offset) = value := arm_frame_kept fits respects member
  by_cases stack : n = 13#4
  · rw [stack]
    show (armAtOol constants unknown returned).sp = s.sp
    rw [sp, respects.sp, arm_frame_sp, BitVec.add_assoc, show -48#32 + 48#32 = 0#32 by decide,
      BitVec.add_zero]
  rw [r n stack]
  by_cases low : n.toNat ≤ 6
  · have number : n = BitVec.ofNat 4 n.toNat := by simp
    rw [number, arm_low_popped low, kept (arm_low_stored low)]
  by_cases saved : 7#4 ≤ n ∧ n ≤ 10#4
  · have other : n ∉ scratch ∧ n ∉ ([0, 1] : List (BitVec 4)) := by
      simp only [scratch, List.mem_cons, List.not_mem_nil, or_false, not_or]
      bv_omega
    rw [poppedFrom_other other.1, poppedFrom_other other.2, respects.saved n (by bv_omega) (by bv_omega),
      arm_kept_r n (by bv_omega) (by bv_omega)]
  have popped (m : BitVec 4) (offset : Word)
      (read : poppedFrom returned.memory (returned.sp + 8#32) scratch
      (poppedFrom returned.memory returned.sp [0, 1] returned.r) m =
        loadLE 32 returned.memory (returned.sp + offset))
      (stored : (-48#32 + offset, s.r m) ∈ armFrame constants unknown s) :
      poppedFrom returned.memory (returned.sp + 8#32) scratch
        (poppedFrom returned.memory returned.sp [0, 1] returned.r) m = s.r m := by
    rw [read, kept stored]
  obtain rfl | rfl | rfl : n = 11#4 ∨ n = 12#4 ∨ n = 14#4 := by bv_omega
  · exact popped 11#4 36#32 (by simp [poppedFrom, scratch, BitVec.add_assoc]) (by simp [armFrame])
  · exact popped 12#4 40#32 (by simp [poppedFrom, scratch, BitVec.add_assoc]) (by simp [armFrame])
  · exact popped 14#4 44#32 (by simp [poppedFrom, scratch, BitVec.add_assoc]) (by simp [armFrame])

theorem arm_transparent (fits : 48 ≤ s.sp.toNat)
    (respects : Respects (armAtHandler constants unknown s) returned) :
    ArmTransparent s (armAtOol constants unknown returned) := by
  obtain ⟨-, memory, cpsr, -⟩ := arm_ool_parts constants unknown returned
  refine ⟨fun n register => r_restored fits respects register, ?_, fun a above => ?_⟩
  · have stored : loadLE 32 returned.memory (returned.sp + 0#32) = readCpsr unknown s.cpsr :=
      arm_frame_kept fits respects (by simp [armFrame])
    rw [BitVec.add_zero] at stored
    rw [cpsr, stored, flags_written, flags_read]
  · have entry : (armAtHandler constants unknown s).sp ≤ a := by
      rw [arm_frame_sp, BitVec.le_def]
      rw [BitVec.le_def] at above
      bv_omega
    rw [memory, respects.memory a entry, arm_frame_below fits above]

end

/-! ## Both architectures -/

/-- A handler that follows the calling convention is transparent, and it sees the state of the hit. -/
theorem context_transparent :
    (∀ (s : A64.State) (address handler : BitVec 64),
      let constants := A64Context.constantsAt address handler
      let entry := atHandler constants s
      (∀ i, i < 32 → A64Context.getReg entry i = some (s.readX (BitVec.ofNat 5 i))) ∧
      A64Context.getSp entry = s.sp ∧
        A64Context.getNzcv entry = A64Context.nzcv s.flags ∧ A64Context.getPc entry = address ∧
        (192 ≤ s.sp.toNat → ∀ returned, A64Context.Respects entry returned →
          Transparent s (atOol constants returned))) ∧
    ∀ (s : ArmContext.State) (thumb : Bool) (address handler returnAddress unknown : BitVec 32),
      let constants := ArmContext.constantsAt thumb address handler returnAddress
      let entry := armAtHandler constants unknown s
      (∀ i, i < 16 → ArmContext.getReg entry i =
        if i = 15 then (if thumb then address ||| 1#32 else address) else s.r (BitVec.ofNat 4 i)) ∧
        ArmContext.getCpsr entry &&& statusMask = s.cpsr &&& statusMask ∧
        (48 ≤ s.sp.toNat → ∀ returned, ArmContext.Respects entry returned →
          ArmTransparent s (armAtOol constants unknown returned)) := by
  refine ⟨fun s address handler => ⟨fun i below => getReg_entry _ s below, getSp_entry,
    getNzcv_entry, ?_, ?_⟩,
    fun s thumb address handler returnAddress unknown =>
    ⟨fun i below => arm_getReg_entry _ unknown s below, ?_, ?_⟩⟩
  · show A64Context.getNextPc (atHandler (A64Context.constantsAt address handler) s) - 4#64 = address
    rw [getNextPc_entry]
    exact BitVec.add_sub_cancel address 4#64
  · exact fun fits returned respects => a64_transparent fits respects
  · rw [getCpsr_entry, status_read]
  · exact fun fits returned respects => arm_transparent fits respects

/-- All registers hold the same number. -/
def a64Hit (sp number : BitVec 64) : A64.State :=
  ⟨fun _ => number, sp, 0, ⟨true, false, true, false⟩, fun _ => 0, fun _ => 0⟩

/-- A handler that returns at once. -/
def returnsAtOnce (s : A64.State) : A64.State := { s with pc := s.x 30#5 }

theorem empty_handler_transparent :
    Transparent (a64Hit 0x8000#64 7#64) (atOol (A64Context.constantsAt 0x1000#64 0x4000#64)
      (returnsAtOnce (atHandler (A64Context.constantsAt 0x1000#64 0x4000#64) (a64Hit 0x8000#64 7#64)))) ∧
    ArmTransparent ⟨fun _ => 0x8000#32, 0x60000010#32, fun _ => 0⟩
      (armAtOol (ArmContext.constantsAt true 0x1000#32 0x4000#32 0x2001#32) 0x10#32
        (armAtHandler (ArmContext.constantsAt true 0x1000#32 0x4000#32 0x2001#32) 0x10#32
          ⟨fun _ => 0x8000#32, 0x60000010#32, fun _ => 0⟩)) := by
  obtain ⟨a64, arm⟩ := context_transparent
  obtain ⟨-, -, -, -, transparent⟩ := a64 (a64Hit 0x8000#64 7#64) 0x1000#64 0x4000#64
  obtain ⟨-, -, armTransparent⟩ :=
    arm ⟨fun _ => 0x8000#32, 0x60000010#32, fun _ => 0⟩ true 0x1000#32 0x4000#32 0x2001#32 0x10#32
  exact ⟨transparent (by decide) _ ⟨fun _ _ _ => rfl, rfl, fun _ _ => rfl, rfl, rfl⟩,
    armTransparent (by decide) _ ⟨fun _ _ _ => rfl, rfl, fun _ _ => rfl⟩⟩

/-- With 16 bytes below the stack pointer the frame wraps around to the top of
the memory, and the state bit of Thumb is not read. -/
theorem low_stack_and_thumb_bit_lost :
    (¬∀ (s : A64.State) (address handler : BitVec 64) (returned : A64.State),
      A64Context.Respects (atHandler (A64Context.constantsAt address handler) s) returned →
        ∀ a, s.sp ≤ a → (atOol (A64Context.constantsAt address handler) returned).memory a =
          s.memory a) ∧
    ¬∀ (s : ArmContext.State) (thumb : Bool) (address handler returnAddress unknown : BitVec 32),
      ArmContext.getCpsr (armAtHandler (ArmContext.constantsAt thumb address handler returnAddress)
        unknown s) = s.cpsr := by
  constructor
  · intro all
    have kept := all (a64Hit 16#64 1#64) 0 0
      (returnsAtOnce (atHandler (A64Context.constantsAt 0 0) (a64Hit 16#64 1#64)))
      ⟨fun _ _ _ => rfl, rfl, fun _ _ => rfl, rfl, rfl⟩
    have stored : loadLE 64 (atHandler (A64Context.constantsAt 0 0) (a64Hit 16#64 1#64)).memory
        (16#64 + -192#64) = 1#64 :=
      frame_read (s := a64Hit 16#64 1#64) (by simp [frame, a64Hit])
    have same : loadLE 64 (atHandler (A64Context.constantsAt 0 0) (a64Hit 16#64 1#64)).memory
        (16#64 + -192#64) =
        loadLE 64 (fun _ : BitVec 64 => 0#8) (16#64 + -192#64) := by
      refine loadLE_congr fun i inside => ?_
      have high : (16#64 : BitVec 64) ≤ 16#64 + -192#64 + BitVec.ofNat 64 i := by bv_omega
      have byte := kept _ high
      obtain ⟨-, memory, -⟩ := ool_parts (A64Context.constantsAt 0 0)
        (returnsAtOnce (atHandler (A64Context.constantsAt 0 0) (a64Hit 16#64 1#64)))
      rw [memory] at byte
      exact byte
    rw [stored] at same
    exact absurd same (by decide)
  · intro all
    have same := all ⟨fun _ => 0x8000#32, 0x30#32, fun _ => 0⟩ true 0x1000#32 0x4000#32 0x2001#32 0x10#32
    rw [getCpsr_entry] at same
    exact absurd same (by decide)

end Adbi.ContextProofs
