import Adbi.Lib.Placement
import Adbi.Lib.Runs
import Adbi.Tracepoints
import Mathlib.Tactic.Common

/-! When the tracepoints of a segment are found again. The tree has them by the
address from which they are made, while a tracepoint has the aligned address;
their trampolines lie one after the other in the room of the segment. -/
namespace Adbi.TracepointsProofs
open Adbi.Lib Adbi.Tracepoints

variable {w : Nat} {m : Machine w} {env : Environment m} {process : Process m}
  {segment after : Segment m}
  {injection : Injection w}

/-! ## What is to be found -/

/-- The address belongs to the trampoline of the tracepoint. -/
def Own (tracepoint : Tracepoint m) (x : BitVec w) : Prop :=
  (x - tracepoint.trampoline).toNat < tracepoint.template.size

/-- Every tracepoint of the segment is found by its address, and by exactly the
addresses of its trampoline; for each of these the segment is found too. -/
structure Complete (process : Process m) (segment : Segment m) : Prop where
  runtime : ∀ e ∈ segment.tracepoints.entries, tracepointGetByRuntimeAddress process e.2.address =
      some e.2
  trampoline : ∀ e ∈ segment.tracepoints.entries, ∀ x,
    tracepointGetByTrampolineAddress segment x = some e.2 ↔ Own e.2 x
  segment : ∀ e ∈ segment.tracepoints.entries, ∀ x, Own e.2 x →
      segmentGetByTrampoline process x = some segment

/-- The tracepoint that an entry of the table gives, with the address from which it is made. -/
def tracepointOf (env : Environment m) (injection : Injection w) (segment : Segment m)
    (tp : TracepointInfo) :
    Option (BitVec w × Tracepoint m) :=
  match segmentFo2addr segment (tp.address.setWidth w) with
  | .error _ => none
  | .ok rtAddr =>
    if rtAddr = 0 then none
    else
      match tracepointCreate env rtAddr (injection.address + tp.handlerFn.signExtend w) with
      | .ok (some tracepoint) => some (rtAddr, tracepoint)
      | _ => none

/-- The tracepoints that the entries of a table give, up to the entry that ends it. -/
def tracepointsOf (env : Environment m) (injection : Injection w) (segment : Segment m)
    (tps : List TracepointInfo) :
    List (BitVec w × Tracepoint m) :=
  (tps.takeWhile fun tp => tp.address ≠ 0).filterMap (tracepointOf env injection segment)

/-- The tracepoints that a segment gets. -/
def wanted (env : Environment m) (segment : Segment m) : List (BitVec w × Tracepoint m) :=
  match segment.injection with
  | none => []
  | some injection => (injection.tpoints.map (tracepointsOf env injection segment)).getD []

/-- The size of a trampoline. -/
def codeSize (a : BitVec w × Tracepoint m) : Nat := a.2.template.size

/-- What the trampolines of a segment take together. -/
def total (env : Environment m) (segment : Segment m) : Nat := roomFor codeSize (wanted env segment)

/-- The address lies in the trampolines of a segment. -/
def holds (segment : Segment m) (x : BitVec w) : Bool :=
  segment.trampolines ≠ 0 && within segment.trampolines segment.trampolinesSize x

/-- No tracepoint is made from an odd address, the sizes of the trampolines do not
wrap, and nothing hides the room for them: it does not begin at the address 0, and
no segment below has trampolines in it. -/
structure Findable (env : Environment m) (process : Process m) (before after : Segment m) : Prop where
  even : ∀ a ∈ wanted env before, a.1.toNat % 2 = 0
  small : total env before < 2 ^ w
  mapped : wanted env before ≠ [] → after.trampolines ≠ 0
  alone : ∀ node ∈ process.segments.entries, node.1 < before.start.toNat →
    ∀ x, holds node.2 x = true → total env before ≤ (x - after.trampolines).toNat

/-! ## Addresses -/

theorem align_toNat (address : BitVec w) :
    (align address).toNat = address.toNat - address.toNat % 2 := by
  have halves : (align address).toNat = address.toNat >>> 1 <<< 1 := by
    refine Nat.eq_of_testBit_eq fun i => ?_
    rw [BitVec.testBit_toNat, align, BitVec.getLsbD_and, BitVec.getLsbD_not, BitVec.getLsbD_one,
      Nat.testBit_shiftLeft,
      Nat.testBit_shiftRight, BitVec.testBit_toNat]
    cases i with
    | zero => simp
    | succ i =>
      simp only [Nat.add_sub_cancel_left, Nat.add_comm i 1]
      by_cases inside : 1 + i < w
      · simp [inside]
      · simp [BitVec.getLsbD_of_ge _ _ (Nat.le_of_not_lt inside)]
  rw [halves, Nat.shiftLeft_eq, Nat.shiftRight_eq_div_pow]
  omega

section
variable {low x base : BitVec w} {n p s : Nat}

theorem within_iff (fits : low.toNat + n < 2 ^ w) : within low (BitVec.ofNat w n) x = true ↔
    (x - low).toNat < n := by
  have high : (low + BitVec.ofNat w n).toNat = low.toNat + n := by
    rw [BitVec.toNat_add, BitVec.toNat_ofNat, Nat.add_mod_mod, Nat.mod_eq_of_lt fits]
  simp only [within, Bool.and_eq_true, decide_eq_true_eq, BitVec.le_def, BitVec.lt_def, high]
  by_cases above : low.toNat ≤ x.toNat
  · rw [BitVec.toNat_sub_of_le (BitVec.le_def.mpr above)]
    omega
  · have wraps : (x - low).toNat = 2 ^ w - low.toNat + x.toNat := by
      rw [BitVec.toNat_sub]
      exact Nat.mod_eq_of_lt (by omega)
    omega

/-- The addresses of a place in a room, by their distance from its start. -/
theorem place_iff (fits : p + s ≤ 2 ^ w) (positive : 0 < s) :
    (x - (base + BitVec.ofNat w p)).toNat < s ↔ p ≤ (x - base).toNat ∧ (x - base).toNat < p + s := by
  have small := (x - base).isLt
  have place : (BitVec.ofNat w p).toNat = p := by rw [BitVec.toNat_ofNat, Nat.mod_eq_of_lt (by omega)]
  rw [← BitVec.sub_sub]
  generalize x - base = d at small ⊢
  by_cases above : p ≤ d.toNat
  · rw [BitVec.toNat_sub_of_le (BitVec.le_def.mpr (by omega)), place]
    omega
  · have wraps : (d - BitVec.ofNat w p).toNat = 2 ^ w - p + d.toNat := by
      rw [BitVec.toNat_sub, place]
      exact Nat.mod_eq_of_lt (by omega)
    omega

end

/-! ## What the two loops leave -/

/-- The node of a tracepoint, with the place of its trampoline in a room. -/
def nodeAt (base : BitVec w) (a : (BitVec w × Tracepoint m) × Nat) : Nat × Tracepoint m :=
  (a.1.1.toNat, { a.1.2 with trampoline := BitVec.ofNat w a.2 + base })

/-- The segment in the middle of the first loop. -/
private def during (segment : Segment m) (tree : OrderedTree Nat (Tracepoint m)) (size : Nat) :
    Segment m :=
  { segment with tracepoints := tree, trampolinesSize := BitVec.ofNat w size }

section
variable {tp : TracepointInfo} {rest tps : List TracepointInfo}
  {tree : OrderedTree Nat (Tracepoint m)} {size : Nat}

/-- One round of the first loop: an entry gives no tracepoint, or one that is new. -/
private theorem create_step (more : tp.address ≠ 0)
    (ran : createTracepoints env injection (during segment tree size) (tp :: rest) = .ok after) :
    (tracepointOf env injection segment tp = none ∧
      createTracepoints env injection (during segment tree size) rest = .ok after) ∨
    ∃ a grown, tracepointOf env injection segment tp = some a ∧
      tree.tryInsert a.1.toNat { a.2 with trampoline := BitVec.ofNat w size } = some grown ∧
      createTracepoints env injection (during segment grown (size + codeSize a)) rest = .ok after := by
  rw [createTracepoints, if_neg more] at ran
  obtain ⟨rtAddr, translated, ran⟩ := bind_ok ran
  have same : segmentFo2addr segment (tp.address.setWidth w) = .ok rtAddr := translated
  simp only [tracepointOf, same]
  by_cases outside : rtAddr = 0
  · rw [if_pos outside] at ran
    exact .inl ⟨if_pos outside, ran⟩
  · rw [if_neg outside] at ran
    rw [if_neg outside]
    obtain ⟨result, made, ran⟩ := bind_ok ran
    rw [made]
    cases result with
    | none => exact .inl ⟨rfl, ran⟩
    | some tracepoint =>
      cases inserted : tree.tryInsert rtAddr.toNat
        { tracepoint with trampoline := BitVec.ofNat w size } with
      | none => simp [during, inserted] at ran
      | some grown =>
        refine .inr ⟨(rtAddr, tracepoint), grown, rfl, inserted, ?_⟩
        simpa [during, inserted, codeSize, BitVec.ofNat_add] using ran

/-- The first loop places the trampolines one after the other. -/
private theorem created (ran : createTracepoints env injection (during segment tree size) tps =
      .ok after) :
    ∃ final, after = during segment final
      (size + roomFor codeSize (tracepointsOf env injection segment tps)) ∧
      ∀ e, e ∈ final.entries ↔ e ∈ tree.entries ∨
        ∃ a ∈ places codeSize size (tracepointsOf env injection segment tps), nodeAt 0 a = e := by
  induction tps generalizing tree size with
  | nil =>
    cases ran
    exact ⟨tree, rfl, by simp [tracepointsOf, places]⟩
  | cons tp rest ih =>
    by_cases more : tp.address ≠ 0
    · have front : tracepointsOf env injection segment (tp :: rest) =
          (tracepointOf env injection segment tp).toList ++
            tracepointsOf env injection segment rest := by
        rw [tracepointsOf, List.takeWhile_cons, if_pos (by simpa using more), List.filterMap_cons]
        cases tracepointOf env injection segment tp <;> rfl
      rcases create_step more ran with ⟨nothing, later⟩ | ⟨a, grown, gives, inserted, later⟩
      · rw [front, nothing]
        exact ih later
      · obtain ⟨final, rfl, entries⟩ := ih later
        rw [front, gives, Option.toList_some, List.singleton_append, roomFor_cons, ← Nat.add_assoc]
        refine ⟨final, rfl, fun e => ?_⟩
        rw [entries, OrderedTree.mem_tryInsert inserted, places, List.exists_mem_cons_iff, or_assoc,
          or_left_comm,
          show nodeAt 0 (a, size) = (a.1.toNat, { a.2 with trampoline := BitVec.ofNat w size }) by
            simp [nodeAt]]
        exact or_congr_right (or_congr_left eq_comm)
    · rw [createTracepoints, if_pos (not_not.mp more)] at ran
      cases ran
      have stops : tracepointsOf env injection segment (tp :: rest) = [] := by
        rw [tracepointsOf, List.takeWhile_cons, if_neg (by simpa using more)]
        rfl
      exact ⟨tree, by rw [stops]; rfl, by simp [stops, places]⟩

end

/-- The first loop places what the table gives in an empty tree. -/
theorem created_wanted {tps : List TracepointInfo} (fresh : segment.tracepoints = .empty)
    (injected : segment.injection = some injection)
    (table : injection.tpoints = some tps)
    (ran : createTracepoints env injection { segment with trampolinesSize := 0 } tps = .ok after) :
    ∃ tree, after = { segment with tracepoints := tree, trampolinesSize := BitVec.ofNat w (total env segment) } ∧
      ∀ e, e ∈ tree.entries ↔ ∃ a ∈ places codeSize 0 (wanted env segment), nodeAt 0 a = e := by
  have found : wanted env segment = tracepointsOf env injection segment tps :=
    by simp [wanted, injected, table]
  have initial : { segment with trampolinesSize := 0 } = during segment .empty 0 := by
    rw [during, ← fresh]
    rfl
  rw [initial] at ran
  obtain ⟨tree, rfl, made⟩ := created ran
  refine ⟨tree, ?_, fun e => ?_⟩
  · rw [total, found, Nat.zero_add]
    rfl
  · rw [made, found, OrderedTree.empty, or_iff_right List.not_mem_nil]

/-- The tracepoint with its trampoline moved by the start of the room. -/
private def moved (base : BitVec w) (tracepoint : Tracepoint m) : Tracepoint m :=
  { tracepoint with trampoline := tracepoint.trampoline + base }

/-- The second loop moves every trampoline by the start of the room. -/
private theorem installed {nodes : List (Nat × Tracepoint m)}
    (ordered : nodes.Pairwise fun a b => a.1 < b.1)
    (present : ∀ node ∈ nodes, node ∈ segment.tracepoints.entries)
    (ran : installTracepoints env segment nodes = .ok (after, true)) :
    ∃ final, after = { segment with tracepoints := final } ∧ ∀ k v, final.get k = some v ↔
      (∃ t, (k, t) ∈ nodes ∧ moved segment.trampolines t = v) ∨
        (k ∉ nodes.map (·.1) ∧ segment.tracepoints.get k = some v) := by
  induction nodes generalizing segment with
  | nil =>
    cases ran
    exact ⟨after.tracepoints, rfl, by simp⟩
  | cons node rest ih =>
    obtain ⟨k, t⟩ := node
    obtain ⟨below, later⟩ := List.pairwise_cons.mp ordered
    have here : segment.tracepoints.get k = some t :=
      OrderedTree.get_eq_some_iff.mpr (present _ List.mem_cons_self)
    have fresh : k ∉ rest.map (·.1) := by
      intro repeated
      obtain ⟨other, member, same⟩ := List.mem_map.mp repeated
      exact (below other member).ne same.symm
    rw [installTracepoints] at ran
    obtain ⟨written, -, ran⟩ := bind_ok ran
    cases written with
    | false => cases ran
    | true =>
      have kept : ∀ other ∈ rest,
          other ∈ (segment.tracepoints.adjust k fun _ => moved segment.trampolines t).entries := by
        intro other member
        rw [← OrderedTree.get_eq_some_iff (k := other.1), OrderedTree.get_adjust,
          if_neg (below other member).ne']
        exact OrderedTree.get_eq_some_iff.mpr (present other (List.mem_cons_of_mem _ member))
      obtain ⟨final, rfl, values⟩ := ih later kept ran
      refine ⟨final, rfl, fun l v => ?_⟩
      rw [values, OrderedTree.get_adjust]
      by_cases same : l = k
      · subst same
        have unlisted : ∀ u, (l, u) ∉ rest := fun u member => fresh (List.mem_map.mpr ⟨_, member, rfl⟩)
        simp [fresh, unlisted, here, moved]
      · simp [same]

/-- What `tracepoints_init` leaves, when it does not go back. -/
structure Laid (env : Environment m) (before after : Segment m) : Prop where
  start : after.start = before.start
  stop : after.stop = before.stop
  entries : ∀ e, e ∈ after.tracepoints.entries ↔
    ∃ a ∈ places codeSize 0 (wanted env before), nodeAt after.trampolines a = e
  size : wanted env before ≠ [] → after.trampolinesSize = BitVec.ofNat w (total env before)
  fits : wanted env before ≠ [] → after.trampolines.toNat + after.trampolinesSize.toNat < 2 ^ w

/-- Without a table there is nothing to be found. -/
private theorem laid_nothing (fresh : segment.tracepoints = .empty) (nothing : wanted env segment = []) :
    Laid env segment segment where
  start := rfl
  stop := rfl
  entries e := by simp [fresh, nothing, places, OrderedTree.empty]
  size some := absurd nothing some
  fits some := absurd nothing some

private theorem moved_nodeAt {base : BitVec w} {a : (BitVec w × Tracepoint m) × Nat} :
    moved base (nodeAt 0 a).2 = (nodeAt base a).2 := by
  simp [moved, nodeAt]

/-- The second loop moves the places of the first into the room. -/
private theorem laid_room {tree : OrderedTree Nat (Tracepoint m)} {room : BitVec w}
    (nodes : ∀ e, e ∈ tree.entries ↔ ∃ a ∈ places codeSize 0 (wanted env segment), nodeAt 0 a = e)
    (fits : room.toNat + (during segment tree (total env segment)).trampolinesSize.toNat < 2 ^ w)
    (ran : installTracepoints env
      { during segment tree (total env segment) with trampolines := room } tree.entries =
      .ok (after, true)) : Laid env segment after := by
  obtain ⟨final, rfl, values⟩ := installed tree.sorted (fun _ member => member) ran
  refine ⟨rfl, rfl, fun e => ?_, fun _ => rfl, fun _ => fits⟩
  rw [← OrderedTree.get_eq_some_iff (k := e.1), values]
  constructor
  · rintro (⟨t, member, same⟩ | ⟨absent, got⟩)
    · obtain ⟨a, placed, here⟩ := (nodes _).mp member
      refine ⟨a, placed, Prod.ext (show a.1.1.toNat = e.1 from congrArg Prod.fst here) ?_⟩
      rw [← same, ← moved_nodeAt, here]
    · exact absurd (List.mem_map.mpr ⟨_, OrderedTree.get_eq_some_iff.mp got, rfl⟩) absent
  · rintro ⟨a, placed, rfl⟩
    exact .inl ⟨_, (nodes _).mpr ⟨a, placed, rfl⟩, moved_nodeAt⟩

private theorem laid_placed {tree : OrderedTree Nat (Tracepoint m)}
    (nodes : ∀ e, e ∈ tree.entries ↔ ∃ a ∈ places codeSize 0 (wanted env segment), nodeAt 0 a = e)
    (ran : placeTracepoints env (during segment tree (total env segment)) = .ok (after, true)) :
    Laid env segment after := by
  rw [placeTracepoints] at ran
  by_cases empty : (during segment tree (total env segment)).tracepoints.entries.isEmpty = true
  · rw [if_pos empty] at ran
    cases ran
    have unplaced : places codeSize 0 (wanted env segment) = [] :=
      List.eq_nil_iff_forall_not_mem.mpr fun a placed =>
        List.not_mem_nil (List.isEmpty_iff.mp empty ▸ (nodes _).mpr ⟨a, placed, rfl⟩)
    have nothing : wanted env segment = [] := by
      rw [← places_items codeSize 0 (wanted env segment), unplaced]
      rfl
    refine ⟨rfl, rfl, fun e => ?_, fun some => absurd nothing some, fun some => absurd nothing some⟩
    rw [List.isEmpty_iff.mp empty, unplaced]
    simp
  · rw [if_neg empty] at ran
    cases answer : env.allocateTrampoline (during segment tree (total env segment)) with
    | none =>
      rw [answer] at ran
      cases ran
    | some room =>
      rw [answer] at ran
      obtain ⟨⟨last, whole⟩, second, done⟩ := bind_ok ran
      cases whole with
      | false => cases done
      | true =>
        cases done
        exact laid_room nodes room.2 second

theorem laid (fresh : segment.tracepoints = .empty)
    (ran : tracepointsInit env segment = .ok (after, true)) :
    Laid env segment after := by
  rw [tracepointsInit] at ran
  cases injected : segment.injection with
  | none =>
    rw [injected] at ran
    cases ran
    exact laid_nothing fresh (by simp [wanted, injected])
  | some injection =>
    simp only [injected] at ran
    cases table : injection.tpoints with
    | none =>
      rw [table] at ran
      cases ran
      exact laid_nothing fresh (by simp [wanted, injected, table])
    | some tps =>
      have found : wanted env segment = tracepointsOf env injection segment tps :=
        by simp [wanted, injected, table]
      have initial : { segment with injection := some injection, trampolinesSize := 0 } =
          during segment .empty 0 := by
        rw [during, ← fresh, ← injected]
        rfl
      rw [table] at ran
      obtain ⟨middle, first, placed⟩ := bind_ok ran
      rw [initial] at first
      obtain ⟨tree, rfl, made⟩ := created first
      rw [← found, Nat.zero_add] at placed
      refine laid_placed (fun e => ?_) placed
      rw [made, found, OrderedTree.empty, or_iff_right List.not_mem_nil]

/-! ## The entries of the table -/

section
variable {a : BitVec w × Tracepoint m}

private theorem mapped_inside {offset address : BitVec w}
    (translated : segmentFo2addr segment offset = .ok address)
    (nonzero : address ≠ 0) : segment.start ≤ address ∧ address < segment.stop := by
  rw [segmentFo2addr] at translated
  split at translated
  · cases translated
    split at nonzero
    · exact absurd rfl nonzero
    · rename_i outside
      rw [if_neg outside]
      exact ⟨BitVec.not_lt.mp (not_or.mp outside).1, BitVec.not_le.mp (not_or.mp outside).2⟩
  · cases translated

private theorem created_address {address handler : BitVec w} {tracepoint : Tracepoint m}
    (made : tracepointCreate env address handler = .ok (some tracepoint)) :
    tracepoint.address = align address := by
  obtain ⟨result, -, chosen⟩ := bind_ok made
  cases result with
  | none => cases chosen
  | some read =>
    cases selected : env.templateSelect read.1 read.2 with
    | none =>
      simp only [selected] at chosen
      cases chosen
    | some template =>
      simp only [selected] at chosen
      cases chosen
      rfl

/-- A tracepoint is made from an address of the segment, and has it aligned. -/
theorem wanted_address (member : a ∈ wanted env segment) :
    segment.start ≤ a.1 ∧ a.1 < segment.stop ∧ a.2.address = align a.1 := by
  have given : ∃ injection tp, tracepointOf env injection segment tp = some a := by
    rw [wanted] at member
    split at member
    · cases member
    · rename_i injection _
      cases table : injection.tpoints with
      | none => simp [table] at member
      | some tps =>
        rw [table] at member
        obtain ⟨tp, -, gives⟩ := List.mem_filterMap.mp member
        exact ⟨injection, tp, gives⟩
  obtain ⟨injection, tp, gives⟩ := given
  rw [tracepointOf] at gives
  split at gives
  · cases gives
  · rename_i rtAddr translated
    split at gives
    · cases gives
    · rename_i nonzero
      split at gives
      · rename_i tracepoint made
        cases gives
        obtain ⟨low, high⟩ := mapped_inside translated nonzero
        exact ⟨low, high, created_address made⟩
      · cases gives

end

/-! ## The lookups -/

section
variable {before : Segment m}

/-- The segment is found by every address in it. -/
theorem segmentGet_of_mem {key : Nat} {address : BitVec w}
    (listed : (key, segment) ∈ process.segments.entries)
    (low : segment.start ≤ address) (high : address < segment.stop) :
    segmentGet process address = some segment := by
  have keyed : key = segment.start.toNat := process.keyed _ listed
  have found : process.segments.getLe address.toNat = some segment := by
    refine OrderedTree.getLe_eq_some_iff.mpr ⟨key, keyed ▸ BitVec.le_def.mp low, listed,
      fun e member below => ?_⟩
    by_contra above
    have apart := process.disjoint _ listed e member (lt_of_not_ge above)
    rw [BitVec.lt_def] at high
    exact absurd (lt_of_lt_of_le high (le_trans apart below)) (lt_irrefl _)
  rw [segmentGet, found]
  exact if_neg (BitVec.not_le.mpr high)

private theorem own_start {tracepoint : Tracepoint m} : Own tracepoint tracepoint.trampoline := by
  rw [Own, BitVec.sub_self]
  exact tracepoint.template.positive

private theorem place_bound {a : (BitVec w × Tracepoint m) × Nat}
    (placed : a ∈ places codeSize 0 (wanted env before)) :
    a.2 + codeSize a.1 ≤ total env before := by
  simpa [total] using (places_bounds placed).2

/-- The addresses of a trampoline, by their distance from the start of the room. -/
theorem own_iff {a : (BitVec w × Tracepoint m) × Nat} {base x : BitVec w}
    (small : total env before < 2 ^ w)
    (placed : a ∈ places codeSize 0 (wanted env before)) :
    Own (nodeAt base a).2 x ↔ a.2 ≤ (x - base).toNat ∧ (x - base).toNat < a.2 + codeSize a.1 := by
  have bound := place_bound placed
  have fits : a.2 + codeSize a.1 ≤ 2 ^ w := by omega
  rw [Own, nodeAt, BitVec.add_comm]
  exact place_iff fits a.1.2.template.positive

section
variable (made : Laid env before after) (small : total env before < 2 ^ w)
include made small

theorem room_fits (some : wanted env before ≠ []) :
    after.trampolines.toNat + total env before < 2 ^ w := by
  have fits := made.fits some
  rwa [made.size some, BitVec.toNat_ofNat, Nat.mod_eq_of_lt small] at fits

/-- The lookup compares an address with a trampoline as it should. -/
theorem covers_iff {e : Nat × Tracepoint m} {x : BitVec w} (member : e ∈ after.tracepoints.entries) :
    within e.2.trampoline (BitVec.ofNat w e.2.template.size) x = true ↔ Own e.2 x := by
  obtain ⟨a, placed, rfl⟩ := (made.entries e).mp member
  have bound := place_bound placed
  have some : wanted env before ≠ [] := fun nothing => by simp [nothing, places] at placed
  have fits := room_fits made small some
  have start : (BitVec.ofNat w a.2 + after.trampolines).toNat = a.2 + after.trampolines.toNat := by
    rw [BitVec.toNat_add, BitVec.toNat_ofNat, Nat.mod_add_mod, Nat.mod_eq_of_lt (by omega)]
  have inside : (BitVec.ofNat w a.2 + after.trampolines).toNat + codeSize a.1 < 2 ^ w := by omega
  exact within_iff inside

/-- Two tracepoints with an address of their trampolines in common are one. -/
theorem owner_unique {e f : Nat × Tracepoint m} {x : BitVec w} (left : e ∈ after.tracepoints.entries)
    (right : f ∈ after.tracepoints.entries) (owns : Own e.2 x) (shares : Own f.2 x) : e = f := by
  obtain ⟨a, placed, rfl⟩ := (made.entries e).mp left
  obtain ⟨b, beside, rfl⟩ := (made.entries f).mp right
  rw [places_unique placed beside ((own_iff small placed).mp owns) ((own_iff small beside).mp shares)]

theorem trampoline_found_iff {e : Nat × Tracepoint m} (member : e ∈ after.tracepoints.entries)
    (x : BitVec w) :
    tracepointGetByTrampolineAddress after x = some e.2 ↔ Own e.2 x := by
  constructor
  · intro got
    obtain ⟨f, found, same⟩ := Option.map_eq_some_iff.mp got
    have covered : within f.2.trampoline (BitVec.ofNat w f.2.template.size) x = true := by
      simpa using List.find?_some found
    rw [← same]
    exact (covers_iff made small (List.mem_of_find?_eq_some found)).mp covered
  · intro owns
    have covered := (covers_iff made small member).mpr owns
    have some : (after.tracepoints.entries.find? fun node =>
        within node.2.trampoline (BitVec.ofNat w node.2.template.size) x).isSome :=
      List.find?_isSome.mpr ⟨e, member, covered⟩
    obtain ⟨f, found⟩ := Option.isSome_iff_exists.mp some
    have inside := List.mem_of_find?_eq_some found
    have hit : within f.2.trampoline (BitVec.ofNat w f.2.template.size) x = true := by
      simpa using List.find?_some found
    have shares := (covers_iff made small inside).mp hit
    rw [tracepointGetByTrampolineAddress, found, owner_unique made small inside member shares owns]
    rfl

/-- The addresses of the room are those of the trampolines. -/
theorem owned_iff {x : BitVec w} :
    (∃ e ∈ after.tracepoints.entries, Own e.2 x) ↔ (x - after.trampolines).toNat < total env before := by
  constructor
  · rintro ⟨e, member, owns⟩
    obtain ⟨a, placed, rfl⟩ := (made.entries e).mp member
    have bound := place_bound placed
    have inside := (own_iff small placed).mp owns
    omega
  · intro inside
    obtain ⟨a, placed, found⟩ := places_cover (Nat.zero_le _) (by simpa [total] using inside)
    exact ⟨_, (made.entries _).mpr ⟨a, placed, rfl⟩, (own_iff small placed).mpr found⟩

theorem holds_iff {x : BitVec w} (some : wanted env before ≠ []) (mapped : after.trampolines ≠ 0) :
    holds after x = true ↔ (x - after.trampolines).toNat < total env before := by
  rw [holds, made.size some, ← within_iff (room_fits made small some), decide_eq_true mapped,
    Bool.true_and]

end

/-- A segment is found by its trampolines, unless a lower one is. -/
theorem segment_found_iff {key : Nat} (listed : (key, segment) ∈ process.segments.entries)
    {x : BitVec w} :
    segmentGetByTrampoline process x = some segment ↔
      holds segment x = true ∧ ∀ node ∈ process.segments.entries, node.1 < key →
      holds node.2 x = false := by
  have keyed : key = segment.start.toNat := process.keyed _ listed
  constructor
  · intro got
    obtain ⟨e, found, same⟩ := Option.map_eq_some_iff.mp got
    have member := List.mem_of_find?_eq_some found
    have here : holds e.2 x = true :=
      List.find?_some (p := fun node : Nat × Segment m => holds node.2 x) found
    have place : e.1 = key := by rw [process.keyed e member, same, keyed]
    refine ⟨same ▸ here, fun node inside below => ?_⟩
    by_contra other
    have lowest := OrderedTree.find?_le (p :=
      fun node : Nat × Segment m => holds node.2 x) found inside (by simpa using other)
    omega
  · rintro ⟨here, alone⟩
    have some : (process.segments.entries.find? fun node => holds node.2 x).isSome :=
      List.find?_isSome.mpr ⟨_, listed, here⟩
    obtain ⟨f, found⟩ := Option.isSome_iff_exists.mp some
    have member := List.mem_of_find?_eq_some found
    have lowest := OrderedTree.find?_le found listed here
    have hit : holds f.2 x = true :=
      List.find?_some (p := fun node : Nat × Segment m => holds node.2 x) found
    have place : f.1 = key := by
      by_contra different
      have hidden := alone f member (by simp only at lowest; omega)
      rw [hit] at hidden
      cases hidden
    have same := OrderedTree.entry_unique member listed place
    change Option.map _ (process.segments.entries.find? fun node => holds node.2 x) = _
    rw [found, same]
    rfl

end

/-! ## Complete and findable -/

private theorem wanted_placed {a : BitVec w × Tracepoint m} (member : a ∈ wanted env segment) :
    ∃ p, (a, p) ∈ places codeSize 0 (wanted env segment) := by
  rw [← places_items codeSize 0 (wanted env segment)] at member
  obtain ⟨b, placed, rfl⟩ := List.mem_map.mp member
  exact ⟨b.2, placed⟩

private theorem placed_wanted {a : (BitVec w × Tracepoint m) × Nat}
    (placed : a ∈ places codeSize 0 (wanted env segment)) :
    a.1 ∈ wanted env segment := by
  rw [← places_items codeSize 0 (wanted env segment)]
  exact List.mem_map.mpr ⟨a, placed, rfl⟩

section
variable {before : Segment m} (made : Laid env before after)
  (listed : (after.start.toNat, after) ∈ process.segments.entries)
include made listed

theorem complete_of_findable (findable : Findable env process before after) :
    Complete process after := by
  have key : after.start.toNat = before.start.toNat := by rw [made.start]
  refine ⟨fun e member => ?_, fun e => trampoline_found_iff made findable.small,
    fun e member x owns => ?_⟩
  · obtain ⟨a, placed, rfl⟩ := (made.entries e).mp member
    have inside := placed_wanted placed
    obtain ⟨low, high, aligned⟩ := wanted_address inside
    have even : align a.1.1 = a.1.1 := by
      apply BitVec.eq_of_toNat_eq
      rw [align_toNat, findable.even _ inside, Nat.sub_zero]
    have address : (nodeAt after.trampolines a).2.address = a.1.1 := aligned.trans even
    rw [address, tracepointGetByRuntimeAddress,
      segmentGet_of_mem listed (made.start ▸ low) (made.stop ▸ high)]
    exact OrderedTree.get_eq_some_iff.mpr member
  · have inside := (owned_iff made findable.small).mp ⟨e, member, owns⟩
    have some : wanted env before ≠ [] := by
      intro nothing
      simp [total, nothing, roomFor] at inside
    refine (segment_found_iff listed).mpr
      ⟨(holds_iff made findable.small some (findable.mapped some)).mpr inside,
        fun node member below => ?_⟩
    by_contra hidden
    have apart := findable.alone node member (key ▸ below) x (by simpa using hidden)
    omega

/-- If the sizes of the trampolines wrap, one of the trampolines lies behind the room. -/
private theorem small_of_complete (complete : Complete process after) : total env before < 2 ^ w := by
  by_contra large
  have positive : 0 < 2 ^ w := Nat.two_pow_pos w
  have rest := Nat.mod_lt (total env before) positive
  have covered : total env before % 2 ^ w < 0 + roomFor codeSize (wanted env before) := by
    rw [← total]
    omega
  obtain ⟨a, placed, low, high⟩ := places_cover (Nat.zero_le _) covered
  have some : wanted env before ≠ [] := fun nothing => by simp [nothing, places] at placed
  have owns : Own (nodeAt after.trampolines a).2
      (BitVec.ofNat w (total env before) + after.trampolines) := by
    have place : (BitVec.ofNat w a.2).toNat = a.2 :=
      by rw [BitVec.toNat_ofNat, Nat.mod_eq_of_lt (by omega)]
    have wrapped : (BitVec.ofNat w (total env before)).toNat = total env before % 2 ^ w :=
      BitVec.toNat_ofNat _ _
    change (BitVec.ofNat w (total env before) + after.trampolines -
      (BitVec.ofNat w a.2 + after.trampolines)).toNat < codeSize a.1
    rw [BitVec.add_comm (BitVec.ofNat w a.2), ← BitVec.sub_sub, BitVec.add_sub_cancel,
      BitVec.toNat_sub_of_le (BitVec.le_def.mpr (by omega)), place, wrapped]
    omega
  have found := complete.segment _ ((made.entries _).mpr ⟨a, placed, rfl⟩) _ owns
  have here := ((segment_found_iff listed).mp found).1
  rw [holds, made.size some, within, BitVec.add_comm after.trampolines] at here
  simp [BitVec.lt_irrefl] at here

theorem findable_of_complete (complete : Complete process after) :
    Findable env process before after := by
  have small := small_of_complete made listed complete
  have key : after.start.toNat = before.start.toNat := by rw [made.start]
  refine ⟨fun a member => ?_, small, fun some => ?_, fun node member below x hides => ?_⟩
  · obtain ⟨p, placed⟩ := wanted_placed member
    obtain ⟨low, high, aligned⟩ := wanted_address member
    have inside := (made.entries _).mpr ⟨_, placed, rfl⟩
    have page : 4096 ∣ after.start.toNat := process.paged _ listed
    have lower : after.start ≤ align a.1 := by
      rw [BitVec.le_def, align_toNat]
      rw [← made.start, BitVec.le_def] at low
      omega
    have higher : align a.1 < after.stop := by
      rw [BitVec.lt_def, align_toNat]
      rw [← made.stop, BitVec.lt_def] at high
      omega
    have found := complete.runtime _ inside
    have address : (nodeAt after.trampolines (a, p)).2.address = align a.1 := aligned
    rw [address, tracepointGetByRuntimeAddress, segmentGet_of_mem listed lower higher] at found
    have same := owner_unique made small (OrderedTree.get_eq_some_iff.mp found) inside
      own_start own_start
    have equal : (align a.1).toNat = a.1.toNat := congrArg Prod.fst same
    rw [align_toNat] at equal
    omega
  · obtain ⟨a, member⟩ := List.exists_mem_of_ne_nil _ some
    obtain ⟨p, placed⟩ := wanted_placed member
    have found := complete.segment _ ((made.entries _).mpr ⟨_, placed, rfl⟩) _ own_start
    have here := ((segment_found_iff listed).mp found).1
    rw [holds, Bool.and_eq_true] at here
    exact of_decide_eq_true here.1
  · by_contra inside
    obtain ⟨e, owned, owns⟩ := (owned_iff (x := x) made small).mpr (by omega)
    have found := complete.segment e owned x owns
    have hidden := ((segment_found_iff listed).mp found).2 node member (key ▸ below)
    rw [hides] at hidden
    cases hidden

end

/-- After `tracepoints_init` every tracepoint is found by its address and by its
trampoline, exactly if none is made from an odd address and nothing hides the room. -/
theorem complete_iff {before : Segment m} (fresh : before.tracepoints = .empty)
    (ran : tracepointsInit env before = .ok (after, true))
    (listed : (after.start.toNat, after) ∈ process.segments.entries) :
    Complete process after ↔ Findable env process before after :=
  ⟨findable_of_complete (laid fresh ran) listed, complete_of_findable (laid fresh ran) listed⟩

/-! ## One tracepoint -/

/-- A process whose memory holds `mov r0, r1`, with room for trampolines at `0x40000000`. -/
def oneEnvironment : Environment arm where
  mode32 := true
  readHalfword _ := some 0x4608
  readWord _ := some 0xe1a00001
  templateSelect _ _ := some ⟨16, by decide⟩
  allocateTrampoline segment :=
    if fits : (0x40000000#32).toNat + segment.trampolinesSize.toNat <
      2 ^ 32 then some ⟨0x40000000, fits⟩ else none
  install _ := .ok true

/-- A segment with one tracepoint in its file. -/
def oneSegment (address : BitVec 32) : Segment arm where
  start := 0x1000
  stop := 0x2000
  filename := some []
  offset := 0
  injection := some ⟨0x30000000, some [⟨address, 8⟩]⟩
  tracepoints := .empty
  trampolines := 0
  trampolinesSize := 0

/-- The segment after `tracepoints_init`. -/
def oneTraced (address : BitVec 32) (kind : arm.Kind) (insn : BitVec 32) : Segment arm :=
  { oneSegment address with
    tracepoints := .singleton (0x1000 + address).toNat
      ⟨align (0x1000 + address), 0x40000000, 0x30000008, insn, kind, ⟨16, by decide⟩⟩
    trampolines := 0x40000000
    trampolinesSize := 16 }

def oneProcess (segment : Segment arm) (start : segment.start = 0x1000) : Process arm where
  segments := .singleton 0x1000 segment
  keyed e member := by
    cases List.mem_singleton.mp member
    rw [start]
    rfl
  paged e member := by
    cases List.mem_singleton.mp member
    exact Nat.dvd_refl _
  disjoint a left b right lower := by
    cases List.mem_singleton.mp left
    cases List.mem_singleton.mp right
    exact absurd lower (lt_irrefl _)

theorem arm_tracepoint_found :
    Complete (oneProcess (oneTraced 0x100 .arm 0xe1a00001) rfl) (oneTraced 0x100 .arm 0xe1a00001) := by
  have ran : tracepointsInit oneEnvironment (oneSegment 0x100) =
      .ok (oneTraced 0x100 .arm 0xe1a00001, true) := rfl
  refine (complete_iff rfl ran List.mem_cons_self).mpr ⟨by decide, by decide, fun _ => by decide,
    fun node member below => ?_⟩
  cases List.mem_singleton.mp member
  exact absurd below (by decide)

/-- A Thumb tracepoint is in the tree by its odd address, and is looked up by the even one. -/
theorem thumb_tracepoint_lost :
    tracepointsInit oneEnvironment (oneSegment 0x101) = .ok (oneTraced 0x101 .thumb 0x4608, true) ∧
      ¬Complete (oneProcess (oneTraced 0x101 .thumb 0x4608) rfl) (oneTraced 0x101 .thumb 0x4608) := by
  refine ⟨rfl, fun complete => ?_⟩
  have found := complete.runtime _ List.mem_cons_self
  have lost : tracepointGetByRuntimeAddress (oneProcess (oneTraced 0x101 .thumb 0x4608) rfl)
      0x1100 = none := rfl
  rw [show ((0x1000 + 0x101 : BitVec 32).toNat,
    (⟨align (0x1000 + 0x101), 0x40000000, 0x30000008, 0x4608, .thumb,
    ⟨16, by decide⟩⟩ : Tracepoint arm)).2.address = 0x1100 from rfl, lost] at found
  cases found

end Adbi.TracepointsProofs
