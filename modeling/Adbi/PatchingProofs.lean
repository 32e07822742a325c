import Adbi.GapsProofs
import Adbi.Patching
import Adbi.TracepointsProofs

/-! Taking down the tracepoints of a segment brings back the code under them and
the jumps of the process, whether all of them have been put up or not, wherever
their instructions overlap and in whatever order the tree gives them away. -/
namespace Adbi.PatchingProofs
open Adbi.Lib Adbi.Lib.Overwrite Adbi.TracepointsProofs Adbi.Patching
open Adbi.Tracepoints hiding Environment tracepointsInit tracepointsCleanup installTracepoints
  placeTracepoints
open Adbi.ArmTemplate (thumb2SwapHalfwords)
open Adbi.Branch (Word isWideHalfword)

variable {w : Nat} {m : Machine w} {env : Patching.Environment m} {segment : Segment m}

/-! ## Instructions -/

/-- The instruction of a tracepoint was read from a memory. -/
structure Saved (memory : BitVec w → BitVec 8) (t : Tracepoint m) : Prop where
  aligned : m.checkAlign t.address t.insnKind = true
  checked : patchCheckInsn t.insnKind t.insn = true
  holds : Holds memory t.address (insnBytes t.insnKind t.insn)

private theorem swap_swap (insn : Word) : thumb2SwapHalfwords (thumb2SwapHalfwords insn) = insn := by
  simp only [thumb2SwapHalfwords, field]
  apply BitVec.eq_of_getLsbD_eq
  intro i inside
  grind

private theorem swap_first (a b c d : BitVec 8) :
    thumb2SwapHalfwords (ofLittleEndian 32 [a, b, c, d]) >>> 16 =
      (ofLittleEndian 16 [a, b]).setWidth 32 := by
  apply BitVec.eq_of_getLsbD_eq
  intro i inside
  rw [BitVec.getLsbD_setWidth, BitVec.getLsbD_ushiftRight, thumb2SwapHalfwords,
    BitVec.getLsbD_append, field, field]
  by_cases low : i < 16
  · rw [if_neg (by omega), BitVec.getLsbD_extractLsb', getLsbD_ofLittleEndian _ _ (by omega),
      getLsbD_ofLittleEndian _ _ low]
    have byte : i / 8 = 0 ∨ i / 8 = 1 := by omega
    rcases byte with first | second
    · simp [first, low, inside]
    · simp [second, low, inside]
  · simp [low, BitVec.getLsbD_of_ge (ofLittleEndian 16 [a, b]) i (by omega)]

private theorem holds_two {memory : BitVec w → BitVec 8} {address : BitVec w} :
    Holds memory address [memory address, memory (address + 1)] := by
  rw [holds_cons, holds_cons]
  exact ⟨rfl, rfl, holds_nil⟩

private theorem holds_four {memory : BitVec w → BitVec 8} {address : BitVec w} :
    Holds memory address [memory address, memory (address + 1), memory (address + 2),
      memory (address + 3)] := by
  have next (k : Nat) : address + BitVec.ofNat w k + 1 = address + BitVec.ofNat w (k + 1) := by
    rw [BitVec.add_assoc, BitVec.ofNat_add]
    rfl
  have two : address + 1 + 1 = address + 2 := next 1
  have three : address + 2 + 1 = address + 3 := next 2
  rw [holds_cons, holds_cons, holds_cons, holds_cons, two, three]
  exact ⟨rfl, rfl, rfl, rfl, holds_nil⟩

section
variable {s : Inferior w} {address : BitVec w} {kind : m.Kind} {insn : Word}

/-- What is read is what is written back. -/
private theorem read_insn (read : patchReadInsn (reading env s) address kind = .ok (some insn)) :
    m.checkAlign address kind = true ∧ Holds s.memory address (insnBytes kind insn) := by
  rw [patchReadInsn] at read
  split at read
  · rename_i aligned
    refine ⟨aligned, ?_⟩
    split at read
    · rename_i thumb
      obtain ⟨half, halfRead, rfl⟩ := Option.map_eq_some_iff.mp (Except.ok.inj read)
      simp only [reading] at halfRead
      split at halfRead
      · cases halfRead
        have back : littleEndian (ofLittleEndian 16 [s.memory address, s.memory (address + 1)]) =
            [s.memory address, s.memory (address + 1)] := littleEndian_ofLittleEndian rfl
        rw [insnBytes, if_pos thumb, BitVec.setWidth_setWidth_of_le _ (by decide),
          BitVec.setWidth_eq, back]
        exact holds_two
      · cases halfRead
    · rename_i wide
      obtain ⟨word, wordRead, rfl⟩ := Option.map_eq_some_iff.mp (Except.ok.inj read)
      simp only [reading] at wordRead
      split at wordRead
      · cases wordRead
        have back : littleEndian (ofLittleEndian 32
            [s.memory address, s.memory (address + 1), s.memory (address + 2), s.memory (address + 3)]) =
            [s.memory address, s.memory (address + 1), s.memory (address + 2), s.memory (address + 3)] :=
          littleEndian_ofLittleEndian rfl
        rw [insnBytes, if_neg wide]
        split
        · rw [swap_swap, back]
          exact holds_four
        · rw [back]
          exact holds_four
      · cases wordRead
  · cases read

private theorem read_halfword (read : patchReadInsn (reading env s) address m.thumb = .ok (some insn)) :
    insn = (ofLittleEndian 16 [s.memory address, s.memory (address + 1)]).setWidth 32 := by
  rw [patchReadInsn] at read
  split at read
  · rw [if_pos rfl] at read
    obtain ⟨half, halfRead, rfl⟩ := Option.map_eq_some_iff.mp (Except.ok.inj read)
    simp only [reading] at halfRead
    split at halfRead
    · cases halfRead
      rfl
    · cases halfRead
  · cases read

private theorem read_word (apart : m.thumb ≠ m.thumb2)
    (read : patchReadInsn (reading env s) address m.thumb2 = .ok (some insn)) :
    insn = thumb2SwapHalfwords
      (ofLittleEndian 32 [s.memory address, s.memory (address + 1), s.memory (address + 2),
        s.memory (address + 3)]) := by
  rw [patchReadInsn] at read
  split at read
  · rw [if_neg apart.symm] at read
    obtain ⟨word, wordRead, rfl⟩ := Option.map_eq_some_iff.mp (Except.ok.inj read)
    simp only [reading] at wordRead
    split at wordRead
    · cases wordRead
      rw [if_pos rfl]
    · cases wordRead
  · cases read

private theorem check_halfword (half : BitVec 16) : (half.setWidth 32 &&& ~~~0xffff#32 == 0) = true := by
  rw [beq_iff_eq]
  apply BitVec.eq_of_getLsbD_eq
  intro i inside
  rw [BitVec.getLsbD_and, BitVec.getLsbD_setWidth, BitVec.getLsbD_not,
    show (0xffff#32) = BitVec.ofNat 32 (2 ^ 16 - 1) from rfl, BitVec.getLsbD_ofNat,
    Nat.testBit_two_pow_sub_one]
  by_cases low : i < 16
  · simp [low, inside]
  · simp [BitVec.getLsbD_of_ge _ i (Nat.not_lt.mp low)]

/-- The kind that the instruction is found to have is one that its word is valid for. -/
private theorem read_detected (apart : m.thumb ≠ m.thumb2) {kind' : m.Kind}
    (read : patchReadInsnDetectKind (reading env s) address kind = .ok (some (insn, kind'))) :
    m.checkAlign address kind' = true ∧ patchCheckInsn kind' insn = true ∧
    Holds s.memory address (insnBytes kind' insn) := by
  rw [patchReadInsnDetectKind] at read
  split at read
  · rename_i other
    obtain ⟨result, word, chosen⟩ := bind_ok read
    obtain ⟨found, rfl, pair⟩ := Option.map_eq_some_iff.mp (Except.ok.inj chosen)
    cases pair
    obtain ⟨aligned, holds⟩ := read_insn word
    exact ⟨aligned, by rw [patchCheckInsn, if_neg other.1, if_neg other.2], holds⟩
  · obtain ⟨result, first, chosen⟩ := bind_ok read
    cases result with
    | none => cases chosen
    | some half =>
      have shape := read_halfword first
      simp only at chosen
      split at chosen
      · rename_i wide
        obtain ⟨result, second, chosen⟩ := bind_ok chosen
        obtain ⟨found, rfl, pair⟩ := Option.map_eq_some_iff.mp (Except.ok.inj chosen)
        cases pair
        obtain ⟨aligned, holds⟩ := read_insn second
        refine ⟨aligned, ?_, holds⟩
        rw [patchCheckInsn, if_neg apart.symm, if_pos rfl]
        rw [read_word apart second, swap_first, ← shape]
        exact wide
      · cases chosen
        obtain ⟨aligned, holds⟩ := read_insn first
        refine ⟨aligned, ?_, holds⟩
        rw [patchCheckInsn, if_pos rfl, shape]
        exact check_halfword _

private theorem saved_of_create (apart : m.thumb ≠ m.thumb2) {handler : BitVec w} {t : Tracepoint m}
    (made : tracepointCreate (reading env s) address handler = .ok (some t)) : Saved s.memory t := by
  rw [tracepointCreate] at made
  obtain ⟨result, read, made⟩ := bind_ok made
  cases result with
  | none => cases made
  | some found =>
    obtain ⟨insn, kind⟩ := found
    simp only at made
    split at made
    · cases made
    · cases made
      obtain ⟨aligned, checked, holds⟩ := read_detected apart read
      exact ⟨aligned, checked, holds⟩

/-- The template of a tracepoint is the one for its instruction. -/
def Selected (env : Patching.Environment m) (t : Tracepoint m) : Prop :=
  env.templates.select t.insn t.insnKind = some t.template

private theorem selected_of_create {handler : BitVec w} {t : Tracepoint m}
    (made : tracepointCreate (reading env s) address handler = .ok (some t)) : Selected env t := by
  rw [tracepointCreate] at made
  obtain ⟨result, -, made⟩ := bind_ok made
  cases result with
  | none => cases made
  | some found =>
    simp only at made
    split at made
    · cases made
    · rename_i selected
      cases made
      exact selected

private theorem create_of_wanted {a : BitVec w × Tracepoint m}
    (member : a ∈ wanted (reading env s) segment) :
    ∃ address handler, tracepointCreate (reading env s) address handler = .ok (some a.2) := by
  have given : ∃ injection tp, tracepointOf (reading env s) injection segment tp = some a := by
    rw [wanted] at member
    split at member
    · cases member
    · rename_i injection _
      cases table : injection.tpoints with
      | none => simp [table] at member
      | some tps =>
        rw [table, Option.map_some, Option.getD_some] at member
        obtain ⟨tp, -, gives⟩ := List.mem_filterMap.mp member
        exact ⟨injection, tp, gives⟩
  obtain ⟨injection, tp, gives⟩ := given
  simp only [tracepointOf] at gives
  split at gives
  · cases gives
  · split at gives
    · cases gives
    · split at gives
      · rename_i made
        cases gives
        exact ⟨_, _, made⟩
      · cases gives

theorem saved_of_wanted (apart : m.thumb ≠ m.thumb2) {a : BitVec w × Tracepoint m}
    (member : a ∈ wanted (reading env s) segment) :
    Saved s.memory a.2 ∧ Selected env a.2 := by
  obtain ⟨address, handler, made⟩ := create_of_wanted member
  exact ⟨saved_of_create apart made, selected_of_create made⟩

end

/-! ## Taking down -/

/-- From this write on all of them go through. -/
def Complete (env : Patching.Environment m) (start : Nat) : Prop :=
  ∀ i, start ≤ i → ∀ address size, size ≤ env.written i address size

/-- The bytes that a tracepoint was put over. -/
def piece (t : Tracepoint m) : BitVec w × Bytes := (t.address, insnBytes t.insnKind t.insn)

/-- The jumps that a tracepoint may need, if a branch does not reach. -/
def sites (env : Patching.Environment m) (t : Tracepoint m) : List (BitVec w × BitVec w) :=
  (t.address, t.trampoline) :: if env.templates.needReturnJump t
    then env.templates.iterReturnAddress t else []

def dropJump (jumps : OrderedTree Nat (BitVec w)) (source : BitVec w) : OrderedTree Nat (BitVec w) :=
  if (jumpGet jumps source).isSome then jumps.remove source.toNat else jumps

def dropJumps (jumps : OrderedTree Nat (BitVec w)) (sites : List (BitVec w × BitVec w)) :
    OrderedTree Nat (BitVec w) :=
  sites.foldl (fun jumps site => dropJump jumps site.1) jumps

theorem get_dropJump (jumps : OrderedTree Nat (BitVec w)) (source : BitVec w) (k : Nat) :
    (dropJump jumps source).get k = if source.toNat = k ∧ jumps.get k ≠ some 0#w then none
      else jumps.get k := by
  rw [dropJump, jumpGet]
  cases here : jumps.get source.toNat with
  | none =>
    rw [Option.filter_none, Option.isSome_none, if_neg Bool.false_ne_true]
    split
    · rename_i both
      rw [← both.1, here]
    · rfl
  | some target =>
    by_cases null : target = 0
    · have kept : ¬(source.toNat = k ∧ jumps.get k ≠ some 0#w) := by
        rintro ⟨rfl, other⟩
        refine other ?_
        rw [here, null]
        rfl
      have absent : Option.filter (fun x => decide (x ≠ 0)) (some target) = none := by simp [null]
      rw [absent, Option.isSome_none, if_neg Bool.false_ne_true, if_neg kept]
    · have there : Option.filter (fun x => decide (x ≠ 0)) (some target) = some target :=
        by simpa using null
      rw [there, Option.isSome_some, if_pos rfl, OrderedTree.get_remove]
      by_cases same : k = source.toNat
      · have other : source.toNat = k ∧ jumps.get k ≠ some 0#w := by
          refine ⟨same.symm, ?_⟩
          rw [same, here]
          simpa using null
        rw [if_pos same, if_pos other]
      · rw [if_neg same, if_neg fun both => same both.1.symm]

/-- A jump that leads somewhere is dropped with its site. -/
theorem get_dropJumps (jumps : OrderedTree Nat (BitVec w)) (sites : List (BitVec w × BitVec w))
    (k : Nat) :
    (dropJumps jumps sites).get k =
      if (∃ site ∈ sites, site.1.toNat = k) ∧ jumps.get k ≠ some 0#w then none else jumps.get k := by
  induction sites generalizing jumps with
  | nil => simp [dropJumps]
  | cons site rest ih =>
    have step : dropJumps jumps (site :: rest) = dropJumps (dropJump jumps site.1) rest := rfl
    simp only [step, ih, get_dropJump, List.exists_mem_cons_iff]
    by_cases null : jumps.get k = some 0#w
    · simp [null]
    · by_cases here : site.1.toNat = k
      · simp [here, null]
      · simp [here, null]

section
variable {s : Inferior w} {t : Tracepoint m}

theorem run_jumpForget (source : BitVec w) (s : Inferior w) :
    jumpForget source s = .ok () { s with jumps := dropJump s.jumps source } := by
  simp only [jumpForget, run_bind, run_get, dropJump]
  split
  · rename_i there
    have present : (s.jumps.get source.toNat).isSome = true := by
      obtain ⟨target, found⟩ := Option.isSome_iff_exists.mp there
      rw [jumpGet, Option.filter_eq_some_iff] at found
      rw [found.1, Option.isSome_some]
    simp only [jumpUninstall, run_bind, run_get, assert, present, if_true, run_pure, run_modify]
  · rfl

theorem run_forgetReturns (l : List (BitVec w × BitVec w)) (s : Inferior w) :
    (l.forM fun site => jumpForget site.1) s = .ok () { s with jumps := dropJumps s.jumps l } := by
  induction l generalizing s with
  | nil => rfl
  | cons site rest ih =>
    show (jumpForget site.1 >>= fun _ => rest.forM fun site => jumpForget site.1) s = _
    rw [run_bind, run_jumpForget]
    exact ih _

private theorem run_memWrite (address : BitVec w) (data : Bytes)
    (complete : data.length ≤ env.written s.writes address data.length) :
    memWrite env address data s =
      .ok data.length { s with memory := overwrite s.memory address data, writes := s.writes + 1 } := by
  have all : min (env.written s.writes address data.length) data.length = data.length :=
    Nat.min_eq_right complete
  simp only [memWrite, run_bind, run_get, all, List.take_length]
  rfl

/-- The instruction is written back, and the jumps of the tracepoint are dropped. -/
theorem run_forget {memory : BitVec w → BitVec 8} (saved : Saved memory t)
    (complete : Complete env s.writes) :
    forget env true t s = .ok ()
      ⟨overwrite s.memory t.address (insnBytes t.insnKind t.insn), dropJumps s.jumps (sites env t),
        s.writes + 1⟩ := by
  have patched (jumps : OrderedTree Nat (BitVec w)) :
      patchInsn env t.address t.insnKind t.insn ⟨s.memory, jumps, s.writes⟩ =
      .ok true ⟨overwrite s.memory t.address (insnBytes t.insnKind t.insn), jumps, s.writes + 1⟩ := by
    have through := complete s.writes (Nat.le_refl _) t.address (insnBytes t.insnKind t.insn).length
    have written := run_memWrite (s :=
      ⟨s.memory, jumps, s.writes⟩) t.address (insnBytes t.insnKind t.insn) through
    simp only [patchInsn, run_bind, assert, saved.aligned, saved.checked, if_true, run_pure,
      written, beq_self_eq_true]
  simp only [forget, run_bind, run_jumpForget, sites]
  cases returns : env.templates.needReturnJump t with
  | true =>
    simp only [if_true]
    rw [run_bind, run_forgetReturns]
    simp only
    rw [run_bind, patched]
    rfl
  | false =>
    simp only [Bool.false_eq_true, if_false, if_true]
    rw [run_bind, patched]
    rfl

private theorem run_forgetAll {memory : BitVec w → BitVec 8} {nodes : List (Nat × Tracepoint m)}
    (saved : ∀ node ∈ nodes, Saved memory node.2) (complete : Complete env s.writes) :
    (nodes.forM fun node => forget env true node.2) s = .ok ()
      ⟨overwriteAll s.memory (nodes.map fun node => piece node.2),
        dropJumps s.jumps (nodes.flatMap fun node => sites env node.2),
        s.writes + nodes.length⟩ := by
  induction nodes generalizing s with
  | nil => rfl
  | cons node rest ih =>
    show (forget env true node.2 >>= fun _ => rest.forM fun node => forget env true node.2) s = _
    rw [run_bind, run_forget (saved node List.mem_cons_self) complete]
    refine (ih (fun other member => saved other (List.mem_cons_of_mem _ member)) fun i later =>
      complete i (Nat.le_of_succ_le later)).trans ?_
    have jumps : dropJumps s.jumps ((node :: rest).flatMap fun node => sites env node.2) =
        dropJumps (dropJumps s.jumps (sites env node.2)) (rest.flatMap fun node =>
          sites env node.2) := by
      rw [List.flatMap_cons, dropJumps, List.foldl_append]
      rfl
    rw [jumps, List.length_cons, Nat.add_right_comm, Nat.add_assoc]
    rfl

end

/-- The code under the tracepoints of a segment. -/
def pieces (segment : Segment m) : List (BitVec w × Bytes) :=
  segment.tracepoints.entries.map fun e => piece e.2

def segmentSites (env : Patching.Environment m) (segment : Segment m) : List (BitVec w × BitVec w) :=
  segment.tracepoints.entries.flatMap fun e => sites env e.2

/-- The memory without the trampolines. -/
def freed (env : Patching.Environment m) (segment : Segment m) (memory : BitVec w → BitVec 8) :
    BitVec w → BitVec 8 :=
  if segment.trampolines ≠ 0 then env.trampolineFree segment memory else memory

/-- A segment without tracepoints. -/
def cleared (segment : Segment m) : Segment m :=
  { segment with trampolines := 0, trampolinesSize := 0, tracepoints := .empty }

/-- What taking down leaves: the code as it was read, and none of the jumps that lead anywhere. -/
structure TakenDown (env : Patching.Environment m) (segment : Segment m)
    (memory : BitVec w → BitVec 8) (before after : Inferior w) : Prop where
  code : ∀ a, Covered (pieces segment) a → after.memory a = memory a
  rest : ∀ a, ¬Covered (pieces segment) a → after.memory a = freed env segment before.memory a
  jumps : ∀ k, after.jumps.get k =
    if (∃ site ∈ segmentSites env segment, site.1.toNat = k) ∧
    before.jumps.get k ≠ some 0#w then none else before.jumps.get k

theorem detach_takes_down {memory : BitVec w → BitVec 8} {s : Inferior w}
    (saved : ∀ e ∈ segment.tracepoints.entries, Saved memory e.2)
    (complete : Complete env s.writes) :
    ∃ after, tracepointsDetach env segment s = .ok (cleared segment) after ∧
    TakenDown env segment memory s after := by
  have order := (env.popped segment.tracepoints).2
  generalize all : (env.popped segment.tracepoints).1 = nodes at order
  have savedAll : ∀ node ∈ nodes, Saved memory node.2 :=
    fun node member => saved node (order.mem_iff.mp member)
  have ran := run_forgetAll (s := ⟨freed env segment s.memory, s.jumps, s.writes⟩) savedAll complete
  have same : (nodes.map fun node => piece node.2).Perm (pieces segment) := order.map _
  have holds : ∀ p ∈ nodes.map (fun node => piece node.2), Holds memory p.1 p.2 := by
    intro p member
    obtain ⟨node, inside, rfl⟩ := List.mem_map.mp member
    exact (savedAll node inside).holds
  have covered (a : BitVec w) : Covered (nodes.map fun node => piece node.2) a ↔
      Covered (pieces segment) a :=
    exists_congr fun p => and_congr_left fun _ => same.mem_iff
  refine ⟨⟨overwriteAll (freed env segment s.memory) (nodes.map fun node => piece node.2),
    dropJumps s.jumps (nodes.flatMap fun node => sites env node.2), s.writes + nodes.length⟩, ?_,
    fun a inside => ?_, fun a outside => ?_,
    fun k => ?_⟩
  · have start : tracepointsDetach env segment s =
        ((nodes.forM fun node => forget env true node.2) >>= fun _ => pure (cleared segment))
          ⟨freed env segment s.memory, s.jumps, s.writes⟩ := by
      simp only [tracepointsDetach, tracepointsCleanup, freed, all, Bool.true_and, decide_eq_true_eq]
      rw [run_bind]
      split
      · rfl
      · rfl
    rw [start, run_bind, ran]
    rfl
  · exact overwriteAll_inside holds (.inl ((covered a).mpr inside))
  · exact overwriteAll_outside fun inside => outside ((covered a).mp inside)
  · have members : (∃ site ∈ nodes.flatMap (fun node => sites env node.2), site.1.toNat = k) ↔
        ∃ site ∈ segmentSites env segment, site.1.toNat = k :=
      exists_congr fun site => and_congr_left fun _ => (order.flatMap_right _).mem_iff
    simp only [get_dropJumps, members]

/-! ## Putting up -/

/-- What differs from an earlier state: bytes that may be touched, and jumps that are new. -/
structure Near (before : Inferior w) (touched : BitVec w → Prop)
    (installed : List (BitVec w × BitVec w)) (s : Inferior w) : Prop where
  memory : ∀ a, ¬touched a → s.memory a = before.memory a
  jumps : ∀ k, s.jumps.get k = before.jumps.get k ∨
    before.jumps.get k = none ∧ ∃ site ∈ installed, site.1.toNat = k ∧ s.jumps.get k = some site.2

section
variable {before : Inferior w} {touched : BitVec w → Prop} {installed : List (BitVec w × BitVec w)}

theorem Near.weaken {more : List (BitVec w × BitVec w)} {s : Inferior w}
    (near : Near before touched installed s)
    (among : ∀ site ∈ installed, site ∈ more) : Near before touched more s :=
  ⟨near.memory, fun k => (near.jumps k).imp_right fun ⟨absent, site, member, rest⟩ =>
    ⟨absent, site, among site member, rest⟩⟩

theorem near_memWrite {address : BitVec w} {data : Bytes}
    (inside : ∀ a, Within address data.length a → touched a) :
    Ensures (Near before touched installed) (memWrite env address data) fun _ =>
    Near before touched installed := by
  intro s near count s' ran
  simp only [memWrite, run_bind, run_get] at ran
  cases ran
  refine ⟨fun a outside => ?_, near.jumps⟩
  rw [← near.memory a outside]
  exact overwrite_take_outside _ fun within_ => outside (inside a within_)

theorem length_insnBytes (kind : m.Kind) (insn insn' : Word) :
    (insnBytes kind insn).length = (insnBytes kind insn').length := by
  simp only [insnBytes]
  split
  · simp
  · simp

theorem near_assert (holds : Bool) :
    Ensures (Near before touched installed)
    (Patching.assert holds) fun _ => Near before touched installed := by
  cases holds with
  | true => exact ensures_pure fun _ near => near
  | false => exact ensures_throw

theorem near_given (x : Option α) :
    Ensures (Near before touched installed) (given x) fun a s => x = some a ∧
    Near before touched installed s := by
  cases x with
  | some a => exact ensures_pure fun _ near => ⟨rfl, near⟩
  | none => exact ensures_throw

theorem near_patchInsn {address : BitVec w} {kind : m.Kind} (insn₀ insn : Word)
    (inside : ∀ a, Within address (insnBytes kind insn₀).length a → touched a) :
    Ensures (Near before touched installed) (patchInsn env address kind insn) fun _ =>
    Near before touched installed := by
  rw [length_insnBytes kind insn₀ insn] at inside
  refine ensures_bind (near_assert _) fun _ => ensures_bind (near_assert _) fun _ => ?_
  exact ensures_bind (near_memWrite inside) fun _ => ensures_pure fun _ near => near

theorem near_jumpInstall {source target : BitVec w} (among : (source, target) ∈ installed) :
    Ensures (Near before touched installed) (jumpInstall source target) fun _ =>
    Near before touched installed := by
  intro s near _ s' ran
  simp only [jumpInstall, run_bind, run_get] at ran
  cases inserted : s.jumps.tryInsert source.toNat target with
  | none =>
    rw [inserted] at ran
    cases ran
  | some jumps =>
    rw [inserted] at ran
    cases ran
    refine ⟨near.memory, fun k => ?_⟩
    show jumps.get k = _ ∨ _
    rw [OrderedTree.get_tryInsert inserted]
    by_cases here : k = source.toNat
    · have absent : s.jumps.get k = none := here ▸ OrderedTree.absent_of_tryInsert inserted
      rw [if_pos here]
      refine .inr ⟨?_, _, among, here.symm, rfl⟩
      rcases near.jumps k with same | ⟨-, site, -, -, there⟩
      · rw [← same, absent]
      · rw [absent] at there
        cases there
    · rw [if_neg here]
      exact near.jumps k

theorem near_installJump {t : Tracepoint m}
    (code : ∀ a, Within t.address (insnBytes t.insnKind t.insn).length a → touched a)
    (among : (t.address, t.trampoline) ∈ installed) :
    Ensures (Near before touched installed)
    (installJump env t) fun _ => Near before touched installed := by
  rw [installJump]
  split
  · refine ensures_bind (near_given _) fun insn => ?_
    refine ensures_bind (Q := fun _ => Near before touched installed) ?_ fun _ =>
      ensures_pure fun _ near => near
    exact fun s both => near_patchInsn t.insn insn code s both.2
  · refine ensures_bind (Q := fun _ => Near before touched installed) ?_ fun _ => near_jumpInstall among
    exact ensures_bind (near_patchInsn t.insn _ code) fun _ => ensures_pure fun _ near => near

private theorem length_setWord {code : Bytes} {offset : Nat} (inside : offset + 4 ≤ code.length)
    (insn : Word) :
    (setWord code offset insn).length = code.length := by
  have word : (littleEndian insn).length = 4 := rfl
  rw [setWord, List.length_append, List.length_append, List.length_take, List.length_drop, word]
  omega

/-- The code of a trampoline keeps its length. -/
theorem near_installReturn {t : Tracepoint m} {code : Bytes} {n : Nat} {site : BitVec w × BitVec w}
    (among : site ∈ installed)
    (inside : (site.1 - t.trampoline).toNat + 4 ≤ n) :
    Ensures (fun s => code.length = n ∧ Near before touched installed s) (installReturn env t code site)
      fun code s => code.length = n ∧ Near before touched installed s := by
  rintro s ⟨rfl, near⟩
  revert s
  rw [installReturn]
  split
  · refine ensures_bind (near_given _) fun insn => ensures_pure fun s both => ⟨?_, both.2⟩
    exact length_setWord inside insn
  · refine ensures_bind (near_jumpInstall among) fun _ => ensures_pure fun s near => ⟨?_, near⟩
    exact length_setWord inside _

/-- What the server is built with: the code of a trampoline is as long as its
template says, and the return sites lie in it. -/
structure Fitting (env : Patching.Environment m) : Prop where
  sized : ∀ t code, Selected env t → env.templates.getHandler t = some code →
      code.length = t.template.size
  inside : ∀ t, Selected env t → ∀ site ∈ env.templates.iterReturnAddress t,
    (site.1 - t.trampoline).toNat + 4 ≤ t.template.size

/-- The room for the trampolines is all that its search and its release change, besides what the
calls for them leave behind. -/
structure Tame (env : Patching.Environment m) (scratch : BitVec w → Prop) :
    Prop extends Fitting env where
  somewhere : ∀ segment memory room, (env.allocateTrampoline segment memory).1 = some room → room.1 ≠ 0
  allocated : ∀ segment memory room a, (env.allocateTrampoline segment memory).1 = some room →
    ¬Within room.1 (pages segment.trampolinesSize.toNat) a → ¬scratch a →
      (env.allocateTrampoline segment memory).2 a = memory a
  refused : ∀ segment memory a, (env.allocateTrampoline segment memory).1 = none → ¬scratch a →
    (env.allocateTrampoline segment memory).2 a = memory a
  freed : ∀ segment memory a, ¬Within segment.trampolines (pages segment.trampolinesSize.toNat) a →
      ¬scratch a →
    env.trampolineFree segment memory a = memory a

theorem near_installReturns (fitting : Fitting env) {t : Tracepoint m} {code : Bytes}
    (selected : Selected env t)
    (among : ∀ site ∈ sites env t, site ∈ installed)
    (length : code.length = t.template.size) :
    Ensures (Near before touched installed) (installReturns env t code)
      fun code s => code.length = t.template.size ∧ Near before touched installed s := by
  rw [installReturns]
  split
  · rename_i returns
    refine ensures_bind (near_assert _) fun _ => ?_
    have each (code : Bytes) (site : BitVec w × BitVec w)
        (member : site ∈ env.templates.iterReturnAddress t) :
        Ensures (fun s => code.length = t.template.size ∧ Near before touched installed s)
          (installReturn env t code site)
          fun code s => code.length = t.template.size ∧ Near before touched installed s := by
      refine near_installReturn (among _ ?_) (fitting.inside t selected site member)
      rw [sites, if_pos returns]
      exact List.mem_cons_of_mem _ member
    exact fun s near => ensures_foldlM each code s ⟨length, near⟩
  · exact ensures_pure fun _ near => ⟨length, near⟩

/-- One round of the second loop. -/
theorem near_installTracepoint (fitting : Fitting env) {t : Tracepoint m} (selected : Selected env t)
    (code : ∀ a, Within t.address (insnBytes t.insnKind t.insn).length a → touched a)
    (room : ∀ a, Within t.trampoline t.template.size a → touched a)
    (among : ∀ site ∈ sites env t, site ∈ installed) :
    Ensures (Near before touched installed) (installTracepoint env t) fun _ =>
    Near before touched installed := by
  refine ensures_bind (near_installJump code (among _ List.mem_cons_self)) fun _ => ?_
  refine ensures_bind (near_given _) fun first => ?_
  rintro s ⟨handler, near⟩
  revert s
  suffices whole : Ensures (Near before touched installed) (do
      let code ← installReturns env t first
      return (← memWrite env t.trampoline code) == code.length) fun _ =>
      Near before touched installed from
    fun s near => whole s near
  refine ensures_bind (near_installReturns fitting selected among
    (fitting.sized t first selected handler)) fun code => ?_
  rintro s ⟨length, near⟩
  rw [← length] at room
  have written : Ensures (Near before touched installed)
      (do return (← memWrite env t.trampoline code) == code.length)
      fun _ => Near before touched installed :=
    ensures_bind (near_memWrite room) fun _ => ensures_pure fun _ near => near
  exact written s near

end

/-! ## All of them -/

/-- The jumps belong to tracepoints whose trampolines are in their place, and not to those that are
still to come. -/
def Owned (env : Patching.Environment m) (segment : Segment m) (pending : List (Nat × Tracepoint m))
    (installed : List (BitVec w × BitVec w)) : Prop :=
  ∀ site ∈ installed, ∃ k t, segment.tracepoints.get k = some t ∧ site ∈ sites env t ∧
  t.trampoline ≠ 0 ∧ ∀ node ∈ pending, k ≠ node.1

/-- A segment whose tracepoint at a key has another trampoline. -/
def relocated (segment : Segment m) (k : Nat) (t : Tracepoint m) : Segment m :=
  { segment with tracepoints := segment.tracepoints.adjust k fun _ => t }

theorem get_relocated {k l : Nat} {t u : Tracepoint m} (here : segment.tracepoints.get k = some u) :
    (relocated segment k t).tracepoints.get l = if l = k then some t else segment.tracepoints.get l := by
  rw [relocated, OrderedTree.get_adjust]
  split
  · rename_i same
    rw [same, here]
    rfl
  · rfl

/-- A tracepoint with its trampoline moved by the start of a room. -/
def movedBy (base : BitVec w) (t : Tracepoint m) : Tracepoint m :=
  { t with trampoline := t.trampoline + base }

/-- The room and the code under the tracepoints are the same. -/
structure Kept (segment after : Segment m) : Prop where
  trampolines : after.trampolines = segment.trampolines
  size : after.trampolinesSize = segment.trampolinesSize
  pieces : pieces after = pieces segment
  saved : ∀ memory, (∀ e ∈ segment.tracepoints.entries, Saved memory e.2) →
      ∀ e ∈ after.tracepoints.entries, Saved memory e.2

theorem Kept.refl (segment : Segment m) : Kept segment segment := ⟨rfl, rfl, rfl, fun _ saved => saved⟩

theorem Kept.trans {middle after : Segment m} (first : Kept segment middle)
    (second : Kept middle after) : Kept segment after :=
  ⟨second.trampolines.trans first.trampolines, second.size.trans first.size,
    second.pieces.trans first.pieces,
    fun memory saved => second.saved memory (first.saved memory saved)⟩

/-- A moved trampoline does not change the code under its tracepoint. -/
theorem kept_relocated {k : Nat} {t : Tracepoint m} {base : BitVec w}
    (here : segment.tracepoints.get k = some t) :
    Kept segment (relocated segment k (movedBy base t)) := by
  have value (e : Nat × Tracepoint m) (member : e ∈ segment.tracepoints.entries) (key : e.1 = k) :
      e.2 = t :=
    OrderedTree.value_unique (k := k) (key ▸ member) (OrderedTree.get_eq_some_iff.mp here)
  refine ⟨rfl, rfl, ?_, fun memory saved e member => ?_⟩
  · rw [PatchingProofs.pieces, relocated, OrderedTree.adjust, List.map_map, PatchingProofs.pieces]
    refine List.map_congr_left fun e member => ?_
    by_cases key : e.1 = k
    · simp [key, value e member key, piece, movedBy]
    · simp [key]
  · rw [relocated, OrderedTree.adjust] at member
    obtain ⟨old, inside, rfl⟩ := List.mem_map.mp member
    split
    · have before := saved _ (OrderedTree.get_eq_some_iff.mp here)
      exact ⟨before.aligned, before.checked, before.holds⟩
    · exact saved old inside

section
variable {before : Inferior w} {touched : BitVec w → Prop}

private theorem moved_place {base a : BitVec w} {t : Tracepoint m} {n : Nat}
    (fits : t.trampoline.toNat + t.template.size ≤ n)
    (small : base.toNat + n < 2 ^ w)
    (inside : Within (movedBy base t).trampoline t.template.size a) : Within base n a := by
  have place : (movedBy base t).trampoline = base + BitVec.ofNat w t.trampoline.toNat := by
    rw [movedBy, BitVec.ofNat_toNat, BitVec.setWidth_eq, BitVec.add_comm]
  rw [Within, place] at inside
  have bounds := (place_iff (by omega) t.template.positive).mp inside
  exact Nat.lt_of_lt_of_le bounds.2 fits

private theorem moved_nonzero {base : BitVec w} {t : Tracepoint m} {n : Nat}
    (fits : t.trampoline.toNat + t.template.size ≤ n)
    (small : base.toNat + n < 2 ^ w) (somewhere : base ≠ 0) : (movedBy base t).trampoline ≠ 0 := by
  intro null
  have sum : (t.trampoline + base).toNat = 0 := by
    have here : t.trampoline + base = 0 := null
    rw [here]
    rfl
  rw [BitVec.toNat_add, Nat.mod_eq_of_lt (by omega)] at sum
  refine somewhere (BitVec.eq_of_toNat_eq ?_)
  show base.toNat = 0
  omega

/-- The second loop puts up the tracepoints of its list, as far as it comes. -/
theorem near_installTracepoints (segment : Segment m) (fitting : Fitting env)
    {nodes : List (Nat × Tracepoint m)}
    {installed : List (BitVec w × BitVec w)} {n : Nat}
    (ordered : nodes.Pairwise fun a b => a.1 < b.1)
    (present : ∀ node ∈ nodes, segment.tracepoints.get node.1 = some node.2)
    (selected : ∀ node ∈ nodes, Selected env node.2)
    (fits : ∀ node ∈ nodes, node.2.trampoline.toNat + node.2.template.size ≤ n)
    (small : segment.trampolines.toNat + n < 2 ^ w)
    (somewhere : segment.trampolines ≠ 0) (code : ∀ a, Covered (pieces segment) a → touched a)
    (room : ∀ a, Within segment.trampolines n a → touched a)
    (owned : Owned env segment nodes installed) :
    Ensures (Near before touched installed) (Patching.installTracepoints env segment nodes) fun r s =>
      Kept segment r.1 ∧ ∃ final, Owned env r.1 [] final ∧ Near before touched final s := by
  induction nodes generalizing segment installed with
  | nil => exact ensures_pure fun s near => ⟨.refl segment, installed, owned, near⟩
  | cons node rest ih =>
    obtain ⟨k, t⟩ := node
    obtain ⟨below, later⟩ := List.pairwise_cons.mp ordered
    have here : segment.tracepoints.get k = some t := present _ List.mem_cons_self
    have fit := fits _ List.mem_cons_self
    let next := relocated segment k (movedBy segment.trampolines t)
    have kept : Kept segment next := kept_relocated here
    have ownedNext : Owned env next rest (installed ++ sites env (movedBy segment.trampolines t)) := by
      intro site member
      rcases List.mem_append.mp member with old | new
      · obtain ⟨l, u, got, among, placed, apart⟩ := owned site old
        refine ⟨l, u, ?_, among, placed, fun other inside => apart other (List.mem_cons_of_mem _ inside)⟩
        rw [get_relocated here, if_neg (apart _ List.mem_cons_self), got]
      · refine ⟨k, _, ?_, new, moved_nonzero fit small somewhere,
          fun other inside => (below other inside).ne⟩
        rw [get_relocated here, if_pos rfl]
    have one : Ensures (Near before touched installed)
        (installTracepoint env (movedBy segment.trampolines t))
        fun _ => Near before touched (installed ++ sites env (movedBy segment.trampolines t)) := by
      intro s near
      refine near_installTracepoint fitting (t :=
        movedBy segment.trampolines t) (selected _ List.mem_cons_self) (fun a inside => code a ?_)
          (fun a inside => room a (moved_place fit small inside))
        (fun site member => List.mem_append_right _ member) s (near.weaken fun site member =>
          List.mem_append_left _ member)
      exact ⟨piece t, List.mem_map.mpr ⟨_, OrderedTree.get_eq_some_iff.mp here, rfl⟩, inside⟩
    refine ensures_bind one fun written => ?_
    cases written with
    | false =>
      refine ensures_pure fun s near => ⟨kept, _, fun site member => ?_, near⟩
      obtain ⟨l, u, got, among, placed, -⟩ := ownedNext site member
      exact ⟨l, u, got, among, placed, fun _ none => absurd none List.not_mem_nil⟩
    | true =>
      have presentNext (other : Nat × Tracepoint m) (member : other ∈ rest) :
          next.tracepoints.get other.1 = some other.2 := by
        rw [get_relocated here, if_neg (below other member).ne']
        exact present other (List.mem_cons_of_mem _ member)
      intro s near r s' ran
      obtain ⟨keptLater, final, rest⟩ := ih _ later presentNext
        (fun other member => selected other (List.mem_cons_of_mem _ member)) (fun other member =>
          fits other (List.mem_cons_of_mem _ member)) small
        somewhere (fun a inside => code a (kept.pieces ▸ inside)) room ownedNext s near r s' ran
      exact ⟨kept.trans keptLater, final, rest⟩

end

/-- The bytes that a segment with its tracepoints may have changed. -/
def Reached (segment : Segment m) (a : BitVec w) : Prop :=
  Covered (pieces segment) a ∨ Within segment.trampolines (pages segment.trampolinesSize.toNat) a

/-- What putting up leaves, whether it has come to its end or not. -/
structure PutUp (env : Patching.Environment m) (scratch : BitVec w → Prop) (placed : Segment m)
    (before after : Inferior w)
    (installed : List (BitVec w × BitVec w)) : Prop where
  saved : ∀ e ∈ placed.tracepoints.entries, Saved before.memory e.2
  owned : Owned env placed [] installed
  near : Near before (fun a => Reached placed a ∨ scratch a) installed after

section
variable {before after : Inferior w} {placed : Segment m × Bool} {scratch : BitVec w → Prop}

private theorem putUp_nothing (none : segment.tracepoints.entries = []) :
    PutUp env scratch segment before before [] where
  saved e member := by simp [none] at member
  owned site member := absurd member List.not_mem_nil
  near := ⟨fun _ _ => rfl, fun _ => .inl rfl⟩

private theorem pages_le (size : Nat) : size ≤ pages size := by
  rw [pages]
  omega

/-- The segment behind the first loop. -/
private def behind (env : Patching.Environment m) (before : Inferior w) (segment : Segment m)
    (tree : OrderedTree Nat (Tracepoint m)) :
    Segment m :=
  { segment with tracepoints := tree, trampolinesSize := BitVec.ofNat w (total (reading env before) segment) }

/-- The trampolines lie in the room. -/
private theorem place_fits {env : Tracepoints.Environment m} (small : total env segment < 2 ^ w)
    {a : (BitVec w × Tracepoint m) × Nat}
    (placed : a ∈ places codeSize 0 (wanted env segment)) :
    (nodeAt 0 a).2.trampoline.toNat + (nodeAt 0 a).2.template.size ≤ total env segment := by
  have bounds := (places_bounds placed).2
  rw [Nat.zero_add] at bounds
  have place : (nodeAt 0 a).2.trampoline = BitVec.ofNat w a.2 := BitVec.add_zero _
  have fits : a.2 + codeSize a.1 ≤ total env segment := bounds
  rw [place, BitVec.toNat_ofNat, Nat.mod_eq_of_lt (by omega)]
  exact fits

private theorem putUp_room (tame : Tame env scratch) (apart : m.thumb ≠ m.thumb2)
    (small : total (reading env before) segment < 2 ^ w)
    {tree : OrderedTree Nat (Tracepoint m)}
    (entries : ∀ e, e ∈ tree.entries ↔
      ∃ a ∈ places codeSize 0 (wanted (reading env before) segment), nodeAt 0 a = e)
    (ran : placeTracepoints env (behind env before segment tree) before = .ok placed after) :
    ∃ installed, PutUp env scratch placed.1 before after installed := by
  have both : ∀ e ∈ tree.entries, Saved before.memory e.2 ∧ Selected env e.2 := by
    intro e member
    obtain ⟨a, placed, rfl⟩ := (entries e).mp member
    have wants : a.1 ∈ wanted (reading env before) segment := by
      rw [← places_items codeSize 0 (wanted (reading env before) segment)]
      exact List.mem_map.mpr ⟨a, placed, rfl⟩
    obtain ⟨saved, selected⟩ := saved_of_wanted apart wants
    exact ⟨⟨saved.aligned, saved.checked, saved.holds⟩, selected⟩
  have saved : ∀ e ∈ tree.entries, Saved before.memory e.2 := fun e member => (both e member).1
  rw [placeTracepoints] at ran
  split at ran
  · rename_i empty
    cases ran
    exact ⟨_, putUp_nothing (List.isEmpty_iff.mp empty)⟩
  · have ran := modify_bind_ran (get_bind_ran ran)
    cases answer : (env.allocateTrampoline (behind env before segment tree) before.memory).1 with
    | none =>
      simp only [answer] at ran
      cases ran
      refine ⟨[], saved, fun site member => absurd member List.not_mem_nil, fun a outside => ?_,
        fun _ => .inl rfl⟩
      exact tame.refused _ _ a answer fun left => outside (.inr left)
    | some room =>
      simp only [answer] at ran
      let start : Segment m := { behind env before segment tree with trampolines := room.1 }
      have size : start.trampolinesSize.toNat = total (reading env before) segment := by
        show (BitVec.ofNat w _).toNat = _
        rw [BitVec.toNat_ofNat, Nat.mod_eq_of_lt small]
      have fits : ∀ node ∈ tree.entries, node.2.trampoline.toNat + node.2.template.size ≤
          total (reading env before) segment := by
        intro node member
        obtain ⟨a, placed, rfl⟩ := (entries node).mp member
        exact place_fits small placed
      have near : Near before (fun a => Reached start a ∨ scratch a) []
          { before with memory := (env.allocateTrampoline (behind env before segment tree) before.memory).2 } := by
        refine ⟨fun a outside => ?_, fun _ => .inl rfl⟩
        exact tame.allocated _ _ room a answer (fun inside => outside (.inl (.inr inside)))
          fun left => outside (.inr left)
      have inside (a : BitVec w) (here : Within room.1 (total (reading env before) segment) a) :
          Reached start a ∨ scratch a := by
        refine .inl (.inr (Nat.lt_of_lt_of_le here ?_))
        rw [size]
        exact pages_le _
      have fitsRoom : room.1.toNat + total (reading env before) segment < 2 ^ w := by
        rw [← size]
        exact room.2
      obtain ⟨kept, installed, owned, last⟩ := near_installTracepoints start tame.toFitting tree.sorted
        (fun node member => OrderedTree.get_eq_some_iff.mpr member) (fun node member =>
          (both node member).2) fits fitsRoom
        (tame.somewhere _ _ room answer) (fun a here => .inl (.inl here)) inside
        (fun site member => absurd member List.not_mem_nil) _ near _ _ ran
      refine ⟨installed, kept.saved _ saved, owned,
        fun a outside => last.memory a fun touched => outside ?_, last.jumps⟩
      refine touched.imp_left fun reached => ?_
      rw [Reached, kept.pieces, kept.trampolines, kept.size]
      exact reached

theorem putUp_place (tame : Tame env scratch) (apart : m.thumb ≠ m.thumb2)
    (fresh : segment.tracepoints = .empty)
    (small : total (reading env before) segment < 2 ^ w)
    (ran : tracepointsPlace env segment before = .ok placed after) :
    ∃ installed, PutUp env scratch placed.1 before after installed := by
  have nothing : PutUp env scratch segment before before [] := putUp_nothing (by rw [fresh]; rfl)
  rw [tracepointsPlace] at ran
  cases injected : segment.injection with
  | none =>
    rw [injected] at ran
    cases ran
    exact ⟨_, nothing⟩
  | some injection =>
    simp only [injected] at ran
    cases table : injection.tpoints with
    | none =>
      rw [table] at ran
      cases ran
      exact ⟨_, nothing⟩
    | some tps =>
      simp only [table] at ran
      obtain ⟨middle, s, made, rest⟩ := bind_ran (get_bind_ran ran)
      rw [← injected] at made
      cases first : createTracepoints (reading env before)
        injection { segment with trampolinesSize := 0 } tps with
      | error _ =>
        rw [first] at made
        cases made
      | ok created =>
        rw [first] at made
        cases made
        obtain ⟨tree, rfl, entries⟩ := created_wanted fresh injected table first
        exact putUp_room tame apart small entries rest

/-- The jumps are as they were before, unless one was there that is not of the segment. -/
theorem jumps_restored_iff {env : Patching.Environment m} {placed : Segment m}
    {memory : BitVec w → BitVec 8} {between final : Inferior w}
    {installed : List (BitVec w × BitVec w)} (up : PutUp env scratch placed before after installed)
    (same : between.jumps = after.jumps)
    (down : TakenDown env placed memory between final)
    (leads : ∀ e ∈ placed.tracepoints.entries, ∀ site ∈ env.templates.iterReturnAddress e.2,
      site.2 ≠ 0) :
    final.jumps = before.jumps ↔
    ∀ site ∈ segmentSites env placed, jumpGet before.jumps site.1 = none := by
  have belongs : ∀ site ∈ installed, site ∈ segmentSites env placed ∧ site.2 ≠ 0 := by
    intro site member
    obtain ⟨k, t, got, among, placedAt, -⟩ := up.owned site member
    have entry := OrderedTree.get_eq_some_iff.mp got
    refine ⟨List.mem_flatMap.mpr ⟨_, entry, among⟩, ?_⟩
    rcases List.mem_cons.mp among with rfl | returns
    · exact placedAt
    · split at returns
      · exact leads _ entry site returns
      · cases returns
  have value (k : Nat) := same ▸ down.jumps k
  have foreign (source : BitVec w) :
      jumpGet before.jumps source = none ↔ before.jumps.get source.toNat = none ∨
      before.jumps.get source.toNat = some 0#w := by
    rw [jumpGet]
    cases before.jumps.get source.toNat with
    | none => simp
    | some target => simp [Option.filter]
  constructor
  · intro equal site member
    rw [foreign]
    have here := value site.1.toNat
    rw [equal] at here
    rcases up.near.jumps site.1.toNat with old | ⟨absent, -⟩
    · by_cases null : before.jumps.get site.1.toNat = some 0#w
      · exact .inr null
      · rw [old, if_pos ⟨⟨site, member, rfl⟩, null⟩] at here
        exact .inl here
    · exact .inl absent
  · intro clear
    refine OrderedTree.ext_get fun k => ?_
    rw [value k]
    rcases up.near.jumps k with old | ⟨absent, site, member, key, got⟩
    · rw [old]
      split
      · rename_i dropped
        obtain ⟨⟨site, member, rfl⟩, other⟩ := dropped
        exact (((foreign site.1).mp (clear site member)).resolve_right other).symm
      · rfl
    · obtain ⟨among, leadsOn⟩ := belongs site member
      have other : after.jumps.get k ≠ some 0#w := by
        rw [got]
        exact fun null => leadsOn (Option.some.inj null)
      rw [if_pos ⟨⟨site, among, key⟩, other⟩, absent]

/-- What is left behind the tracepoints of a segment: the code as it was read when
they were put up, and what the process has become elsewhere, outside the room and
what the calls for it leave behind. No jump from a site is left that leads
anywhere, and if the jumps are those that were put up, these are the jumps of
before, unless one was already at a site. -/
structure Restored (env : Patching.Environment m) (scratch : BitVec w → Prop) (placed : Segment m)
    (before after between final : Inferior w) : Prop where
  code : ∀ a, Covered (pieces placed) a → final.memory a = before.memory a
  rest : ∀ a, ¬Reached placed a → ¬scratch a → final.memory a = between.memory a
  gone : ∀ site ∈ segmentSites env placed, jumpGet final.jumps site.1 = none
  others : ∀ k, (∀ site ∈ segmentSites env placed, site.1.toNat ≠ k) →
      final.jumps.get k = between.jumps.get k
  jumps : (∀ e ∈ placed.tracepoints.entries, ∀ site ∈ env.templates.iterReturnAddress e.2, site.2 ≠ 0) →
    between.jumps = after.jumps →
      (final.jumps = before.jumps ↔ ∀ site ∈ segmentSites env placed, jumpGet before.jumps site.1 = none)

theorem TakenDown.gone {env : Patching.Environment m} {placed : Segment m} {memory : BitVec w → BitVec 8}
    {between final : Inferior w} (down : TakenDown env placed memory between final)
    {site : BitVec w × BitVec w}
    (member : site ∈ segmentSites env placed) : jumpGet final.jumps site.1 = none := by
  rw [jumpGet, down.jumps]
  split
  · rfl
  · rename_i kept
    have null : between.jumps.get site.1.toNat = some 0#w := by
      by_contra other
      exact kept ⟨⟨site, member, rfl⟩, other⟩
    rw [null]
    simp [Option.filter]

/-- Whether they have all been put up or not: what goes back takes down as
`tracepoints_detach` does. -/
theorem restored_of_tame (tame : Tame env scratch) (apart : m.thumb ≠ m.thumb2)
    (fresh : segment.tracepoints = .empty)
    (small : total (reading env before) segment < 2 ^ w)
    (ran : tracepointsPlace env segment before = .ok placed after)
    {between : Inferior w} (complete : Complete env between.writes) :
    (∀ a, ¬Reached placed.1 a → ¬scratch a → after.memory a = before.memory a) ∧
      ∃ final, tracepointsDetach env placed.1 between = .ok (cleared placed.1) final ∧
        Restored env scratch placed.1 before after between final := by
  obtain ⟨installed, up⟩ := putUp_place tame apart fresh small ran
  obtain ⟨final, detached, down⟩ := detach_takes_down up.saved complete
  refine ⟨fun a outside left => up.near.memory a (not_or.mpr ⟨outside, left⟩), final, detached,
    down.code, fun a outside left => ?_,
    fun site member => down.gone member,
    fun k apart => ?_, fun leads same => jumps_restored_iff up same down leads⟩
  · rw [Reached, not_or] at outside
    rw [down.rest a outside.1, freed]
    split
    · exact tame.freed _ _ a outside.2 left
    · rfl
  · rw [down.jumps, if_neg]
    rintro ⟨⟨site, member, here⟩, -⟩
    exact apart site member here

end

/-! ## The room -/

section Room
variable {around : Surroundings w}

/-- The bytes that the calls in the inferior may leave changed. -/
def scratch (around : Surroundings w) (a : BitVec w) : Prop :=
  ∃ memory, around.called memory a ≠ memory a

private theorem called_eq {memory : BitVec w → BitVec 8} {a : BitVec w} (left : ¬scratch around a) :
    around.called memory a = memory a := by
  by_contra other
  exact left ⟨memory, other⟩

/-- A size is rounded up to pages, and no further. -/
private theorem alignToPage_le (around : Surroundings w) {size : Nat} (small : size < 2 ^ w) :
    around.target.alignToPage size ≤ pages size := by
  obtain ⟨count, whole⟩ : 4096 ∣ 2 ^ w := by
    rw [← around.page, ← around.modulus]
    exact around.target.page_dvd
  have positive := Nat.two_pow_pos w
  rw [Trampoline.Machine.alignToPage, Trampoline.Machine.sub, around.page, around.modulus, pages]
  generalize 2 ^ w = modulus at small whole positive
  have one : 1 % modulus = 1 := Nat.mod_eq_of_lt (by omega)
  rcases Nat.eq_zero_or_pos size with rfl | some_
  · have last : (0 + (modulus - 1)) % modulus = modulus - 1 := by
      rw [Nat.zero_add, Nat.mod_eq_of_lt (by omega)]
    have all : ((modulus - 1) / 4096 + 1) * 4096 = modulus := by omega
    rw [one, last, all, Nat.mod_self]
  · have before : (size + (modulus - 1)) % modulus = size - 1 := by
      rw [show size + (modulus - 1) = size - 1 + modulus by omega, Nat.add_mod_right,
        Nat.mod_eq_of_lt (by omega)]
    rw [one, before]
    refine Nat.le_trans (Nat.mod_le _ _) ?_
    omega

private theorem blanked_outside {memory : BitVec w → BitVec 8} {start a : BitVec w} {size : Nat}
    (small : size < 2 ^ w)
    (outside : ¬Within start (pages size) a) (left : ¬scratch around a) :
    blanked (around.called memory) start (around.target.alignToPage size) a = memory a := by
  have away : ¬Within start (around.target.alignToPage size) a := fun inside =>
    outside (Nat.lt_of_lt_of_le inside (alignToPage_le around small))
  rw [blanked, if_neg away, called_eq left]

/-- Of the memory that a call leaves alone, the search and the release change the room. -/
theorem tame_place (around : Surroundings w) {env : Patching.Environment m} (fitting : Fitting env) :
    Tame (around.place env) (scratch around) where
  sized := fitting.sized
  inside := fitting.inside
  somewhere segment memory room allocated := by
    simp only [Surroundings.place, Surroundings.allocateTrampoline] at allocated
    split at allocated
    · cases allocated
    · rename_i held got
      cases allocated
      have positive := (around.mapped _ held got).1
      intro zero
      have same := (around.found_fits got).1
      have start : BitVec.ofNat w held.segment.trampolines = 0#w := zero
      rw [start, BitVec.toNat_zero] at same
      omega
  allocated segment memory room a allocated outside left := by
    simp only [Surroundings.place, Surroundings.allocateTrampoline] at allocated ⊢
    split at allocated
    · cases allocated
    · rename_i held got
      cases allocated
      exact blanked_outside segment.trampolinesSize.isLt outside left
  refused segment memory a refused left := by
    simp only [Surroundings.place, Surroundings.allocateTrampoline] at refused ⊢
    split at refused
    · exact called_eq left
    · cases refused
  freed segment memory a outside left := by
    simp only [Surroundings.place, Surroundings.trampolineFree, Release.trampolineFree, viewed]
    cases around.stolen with
    | true => exact called_eq left
    | false =>
      simp only [Bool.false_eq_true, if_false, BitVec.ofNat_toNat, BitVec.setWidth_eq]
      exact blanked_outside segment.trampolinesSize.isLt outside left

variable {before after between : Inferior w} {placed : Segment m × Bool}

/-- With the room as the search finds it and the release gives it back: whether
all tracepoints have been put up or not, taking them down restores the process. -/
theorem taking_down_restores (around : Surroundings w) (fitting : Fitting env)
    (apart : m.thumb ≠ m.thumb2)
    (fresh : segment.tracepoints = .empty)
    (small : total (reading (around.place env) before) segment < 2 ^ w)
    (ran : tracepointsPlace (around.place env) segment before = .ok placed after)
    (complete : Complete env between.writes) :
    tracepointsInit (around.place env) segment before =
        (if placed.2 then .ok placed.1 after else tracepointsDetach (around.place env) placed.1 after) ∧
      (∀ a, ¬Reached placed.1 a → ¬scratch around a → after.memory a = before.memory a) ∧
      ∃ final, tracepointsDetach (around.place env) placed.1 between = .ok (cleared placed.1) final ∧
        Restored (around.place env) (scratch around) placed.1 before after between final := by
  refine ⟨?_, restored_of_tame (tame_place around fitting) apart fresh small ran complete⟩
  rw [tracepointsInit, run_bind]
  simp only [ran]
  split
  · rfl
  · rfl

end Room

/-! ## One tracepoint -/

private theorem four_instructions : 0 < 16 := Nat.succ_pos 15

/-- Trampolines of four instructions, the last of which leads back. -/
def farTemplates : Templates arm64 where
  select _ _ := some ⟨16, four_instructions⟩
  needReturnJump _ := true
  iterReturnAddress t := [(t.trampoline + 12, t.address + 4)]
  templateKind _ := .a64
  getHandler _ := some (List.replicate 16 0)

/-- The kernel refuses all that the search asks for, and maps one page far away. -/
def farSetup (g : Trampoline.Segment) : Trampoline.Setup where
  injected := []
  handler := none
  tracepoints := []
  size := 0
  answers := []
  allocated := if g.trampolinesSize = 16 then some 0x7f0000000000 else none
  written := true

private theorem far_allocated (g : Trampoline.Segment) :
    Release.allocateTrampoline Trampoline.arm64 [] (farSetup g) g =
    if g.trampolinesSize = 16 then some ⟨{ g with trampolines := 0x7f0000000000 }, .mapped⟩
      else none := by
  have refused : Trampoline.searchTrampoline Trampoline.arm64 [] g [] = none := by
    rw [Trampoline.searchTrampoline, GapsProofs.search_granted]
    simp [Gaps.granted]
  simp only [Release.allocateTrampoline, farSetup, refused]
  split
  · rfl
  · rfl

/-- A process with nothing near the segment. -/
def farSurroundings : Surroundings 64 where
  target := Trampoline.arm64
  modulus := rfl
  page := rfl
  segments := []
  setup := farSetup
  mapped g held got := by
    rw [far_allocated] at got
    split at got
    · rename_i size
      cases got
      show 0 < 0x7f0000000000 ∧ 0x7f0000000000 + g.trampolinesSize < 2 ^ 64
      rw [size]
      decide
    · cases got
  stolen := false
  called memory := memory

/-- The trampolines are out of reach, so that breakpoints take the place of the branches. -/
def farEnvironment (written : Nat → Nat → Nat) : Patching.Environment arm64 where
  jumps := arm64Jumps
  templates := farTemplates
  mode32 := false
  readable _ := true
  written number _ size := written number size
  allocateTrampoline segment memory :=
    if size : segment.trampolinesSize = 16 then
      (some ⟨0x7f0000000000, by rw [size]; decide⟩, blanked memory 0x7f0000000000 4096)
    else (none, memory)
  trampolineFree := farSurroundings.trampolineFree
  popped tree := ⟨tree.entries, .refl _⟩

private theorem far_found (segment : Segment arm64) : farSurroundings.found segment =
    if segment.trampolinesSize = 16 then
      some ⟨{ viewed false segment with trampolines := 0x7f0000000000 }, .mapped⟩ else none := by
  have size : (viewed false segment).trampolinesSize = 16 ↔ segment.trampolinesSize = 16 :=
    BitVec.toNat_inj (y := 16)
  exact (far_allocated (viewed false segment)).trans (by simp only [size])

/-- What is found and given back in these surroundings. -/
private theorem far_place (written : Nat → Nat → Nat) :
    farSurroundings.place (farEnvironment written) = farEnvironment written := by
  have room (segment : Segment arm64) (memory : BitVec 64 → BitVec 8) :
      farSurroundings.allocateTrampoline segment memory =
        (farEnvironment written).allocateTrampoline segment memory := by
    have found := far_found segment
    simp only [Surroundings.allocateTrampoline, farEnvironment]
    split
    · rename_i none
      rw [none] at found
      split at found
      · cases found
      · rename_i other
        rw [dif_neg other]
        rfl
    · rename_i held got
      rw [got] at found
      split at found
      · rename_i size
        obtain rfl := Option.some.inj found
        rw [dif_pos size]
        simp only [size]
        rfl
      · cases found
  rw [Surroundings.place]
  congr
  funext segment memory
  exact room segment memory

/-- A segment with one tracepoint in its file, and a process whose memory holds zeros. -/
def farSegment : Segment arm64 where
  start := 0x1000
  stop := 0x2000
  filename := some []
  offset := 0
  injection := some ⟨0x30000000, some [⟨0x100, 8⟩]⟩
  tracepoints := .empty
  trampolines := 0
  trampolinesSize := 0

def farInferior : Inferior 64 := ⟨fun _ => 0, .empty, 0⟩

/-- The code of the trampoline is only half written. -/
def halfWritten (number size : Nat) : Nat := if number = 1 then 8 else size

private theorem far_fitting (written : Nat → Nat → Nat) : Fitting (farEnvironment written) where
  sized t code selected handler := by
    have template : ⟨16, by decide⟩ = t.template := Option.some.inj selected
    rw [← template, ← Option.some.inj handler, List.length_replicate]
  inside t selected site member := by
    have template : ⟨16, by decide⟩ = t.template := Option.some.inj selected
    have offset : t.trampoline + 12 - t.trampoline = 12 := by rw [BitVec.add_comm, BitVec.add_sub_cancel]
    rw [List.mem_singleton.mp member, offset, ← template]
    decide

/-- What is seen of a run that has come to its end. -/
structure Seen where
  whole : Bool
  pieces : List (BitVec 64 × Bytes)
  room : BitVec 64 × BitVec 64
  jumps : List (Nat × BitVec 64)
  writes : Nat
  byte : BitVec 8
  deriving DecidableEq

def seen : EStateM.Result Fault (Inferior 64) (Segment arm64 × Bool) → Option Seen
  | .ok placed after => some ⟨placed.2, pieces placed.1,
    (placed.1.trampolines, placed.1.trampolinesSize), after.jumps.entries,
      after.writes, after.memory 0x1103⟩
  | .error _ _ => none

/-- A tracepoint of which half the trampoline is written goes back as a whole. -/
theorem half_put_up_restored : ∃ placed after final,
    tracepointsPlace (farSurroundings.place (farEnvironment halfWritten)) farSegment farInferior =
      .ok (placed, false) after ∧
      after.memory 0x1103 = 0xd4 ∧
      after.jumps.entries = [(0x1100, 0x7f0000000000), (0x7f000000000c, 0x1104)] ∧
      tracepointsInit (farSurroundings.place (farEnvironment halfWritten)) farSegment farInferior =
        .ok (cleared placed) final ∧
      final.memory 0x1103 = 0 ∧ final.jumps = .empty := by
  have half : seen (tracepointsPlace (farEnvironment halfWritten) farSegment farInferior) =
      some ⟨false, [(0x1100, [0, 0, 0, 0])], (0x7f0000000000, 16),
        [(0x1100, 0x7f0000000000), (0x7f000000000c, 0x1104)], 2, 0xd4⟩ := by
    decide +kernel
  cases ran : tracepointsPlace (farSurroundings.place (farEnvironment halfWritten)) farSegment
      farInferior with
  | error e s =>
    rw [← far_place, ran] at half
    cases half
  | ok placed after =>
    rw [← far_place, ran] at half
    obtain ⟨whole, code, room, jumps, writes, byte⟩ := Seen.mk.inj (Option.some.inj half)
    obtain ⟨placed, done⟩ := placed
    cases whole
    have leads : ∀ e ∈ placed.tracepoints.entries,
        ∀ site ∈ (farEnvironment halfWritten).templates.iterReturnAddress e.2, site.2 ≠ 0 := by
      intro e member site among
      cases List.mem_singleton.mp among
      have here : piece e.2 ∈ pieces placed := List.mem_map.mpr ⟨e, member, rfl⟩
      rw [code, List.mem_singleton] at here
      have address : e.2.address = 0x1100 := congrArg Prod.fst here
      show e.2.address + 4 ≠ 0
      rw [address]
      decide
    have complete : Complete (farEnvironment halfWritten) after.writes := by
      intro i later _ size
      rw [writes] at later
      have other : i ≠ 1 := by omega
      exact Nat.le_of_eq (if_neg other).symm
    have small : total (reading (farSurroundings.place (farEnvironment halfWritten)) farInferior)
        farSegment < 2 ^ 64 := by
      rw [far_place]
      decide +kernel
    obtain ⟨back, -, final, detached, restored⟩ :=
      taking_down_restores farSurroundings (far_fitting halfWritten) (by decide) rfl
      small ran complete
    have covered : Covered (pieces placed) 0x1103 := by
      rw [code]
      exact ⟨_, List.mem_singleton.mpr rfl, by decide⟩
    refine ⟨placed, after, final, rfl, byte, jumps, back.trans detached, restored.code _ covered,
      (restored.jumps leads rfl).mpr ?_⟩
    intro site _
    rfl

end Adbi.PatchingProofs
