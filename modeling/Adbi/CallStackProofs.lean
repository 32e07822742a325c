import Adbi.CallStack

/-! What the function that is called finds on its stack. Two elements of an
AArch32 process share a push; an odd number of them leaves half a push over,
and the code after the loop stores behind it what is not in the array. -/
namespace Adbi.CallStackProofs
open Adbi.Lib Adbi.MemWrite Adbi.CallStack

variable {n w : Nat} {elements : Elements} {before p q : Pushing n}

/-! ## One push -/

/-- The state after a store that is granted. -/
def stored (p : Pushing n) (value : BitVec n) : Pushing n :=
  { p with inferior := { p.inferior with memory := storeLE p.inferior.memory p.sp value } }

/-- A store is granted at the address of a word that can be accessed. -/
def Granted (inferior : Inferior n) (sp : BitVec n) : Prop :=
  sp.toNat % 4 = 0 ∧ accessible inferior sp = true

instance (inferior : Inferior n) (sp : BitVec n) : Decidable (Granted inferior sp) :=
  inferInstanceAs (Decidable (_ ∧ _))

theorem store_granted (granted : Granted p.inferior p.sp) (value : BitVec n) :
    store value p = .ok () (stored p value) := by
  simp only [store, run_bind, run_get, granted.1, ↓reduceIte, ptraceMemWrite, granted.2,
    run_modify, stored]

theorem store_ran {value : BitVec n} (ran : store value p = .ok () q) :
    Granted p.inferior p.sp ∧ q = stored p value := by
  have granted : Granted p.inferior p.sp := by
    by_contra refused
    simp only [store, run_bind, run_get, ptraceMemWrite] at ran
    by_cases aligned : p.sp.toNat % 4 = 0
    · have inaccessible : ¬accessible p.inferior p.sp = true := fun access => refused ⟨aligned, access⟩
      simp only [aligned, inaccessible, ↓reduceIte, run_throw, reduceCtorEq, Bool.false_eq_true] at ran
    · simp only [aligned, ↓reduceIte, run_throw, reduceCtorEq] at ran
  rw [store_granted granted] at ran
  cases ran
  exact ⟨granted, rfl⟩

/-- The stack holds the first `count` elements, the first of them at the top.
Nothing else has changed, and only elements have been read. -/
structure Stacked (elements : Elements) (w : Nat) (before : Pushing n) (count : Nat)
    (p : Pushing n) : Prop where
  sp : p.sp = before.sp - BitVec.ofNat n (w / 8 * count)
  loads : ∀ i < count,
    loadLE w p.inferior.memory (before.sp - BitVec.ofNat n (w / 8 * (i + 1))) = elements.element w i
  frame : ∀ b, w / 8 * count ≤ (b - p.sp).toNat → p.inferior.memory b = before.inferior.memory b
  reads : ∀ r ∈ p.reads, r ∈ before.reads ∨ r.1 + r.2 ≤ w / 8 * elements.stackElements.toNat

theorem Stacked.nothing : Stacked elements w before 0 before where
  sp := by simp
  loads i inside := absurd inside (Nat.not_lt_zero i)
  frame _ _ := rfl
  reads _ member := .inl member

/-- Storing a further element, or several of them at once. -/
theorem Stacked.store {count more v : Nat} (value : BitVec v) (holds : Stacked elements w before count p)
    (sp : q.sp = before.sp - BitVec.ofNat n (w / 8 * (count + more)))
    (memory : q.inferior.memory = storeLE p.inferior.memory q.sp value)
    (size : v / 8 = w / 8 * more) (fits : w / 8 * (count + more) < 2 ^ n)
    (news : ∀ i, count ≤ i → i < count + more →
      loadLE w q.inferior.memory (before.sp - BitVec.ofNat n (w / 8 * (i + 1))) = elements.element w i)
    (reads : ∀ r ∈ q.reads, r ∈ p.reads ∨ r.1 + r.2 ≤ w / 8 * elements.stackElements.toNat) :
    Stacked elements w before (count + more) q where
  sp := sp
  loads i inside := by
    by_cases old : i < count
    · have above : w / 8 * (i + 1) + v / 8 ≤ w / 8 * (count + more) := by
        rw [size, ← Nat.mul_add]
        exact Nat.mul_le_mul_left _ (by omega)
      have kept := loadLE_storeLE_above (m :=
        p.inferior.memory) before.sp above fits (Nat.le_mul_of_pos_right _ (by omega)) value
      rw [memory, sp, kept]
      exact holds.loads i old
    · exact news i (by omega) inside
  frame b outside := by
    rw [Nat.mul_add] at outside fits sp
    rw [memory, storeLE_apart (by omega)]
    apply holds.frame
    rw [sp] at outside
    rw [holds.sp]
    exact outside_mono before.sp (by omega) fits outside
  reads r member := by
    rcases reads r member with old | new
    · exact holds.reads r old
    · exact .inr new

/-! ## A process in the execution state of the server -/

theorem pushElement_ran {i : Nat} (ran : pushElement elements i p = .ok () q) :
    q = stored { p with sp := p.sp - BitVec.ofNat n (n / 8), reads := (n / 8 * i, n / 8) :: p.reads }
      (elements.element n i) := by
  simp only [pushElement, readElement, moveSp, run_bind, run_modify,
    run_pure, ← BitVec.sub_eq_add_neg] at ran
  exact (store_ran ran).2

/-- The loop stacks one element after the other. -/
theorem pushElements_stacked (whole : 8 ∣ n) (some : 0 < n) {count : Nat}
    (le : count ≤ elements.stackElements.toNat)
    (fits : n / 8 * count < 2 ^ n) :
    Ensures (· = before) ((List.range count).forM (pushElement elements)) fun _ p =>
    Stacked elements n before count p := by
  induction count with
  | zero => exact ensures_pure fun p same => same ▸ Stacked.nothing
  | succ count ih =>
    have room : n / 8 * (count + 1) = n / 8 * count + n / 8 := Nat.mul_succ _ _
    rw [List.range_succ, List.forM_eq_forM, List.forM_append]
    refine ensures_bind (ih (by omega) (by omega)) fun _ => ?_
    rw [List.forM_cons]
    refine ensures_bind (Q := fun _ => Stacked elements n before (count + 1)) ?_ fun _ =>
      ensures_pure fun _ holds => holds
    intro p holds _ q ran
    have pushed := pushElement_ran ran
    have sp : q.sp = before.sp - BitVec.ofNat n (n / 8 * (count + 1)) := by
      rw [pushed, room, BitVec.ofNat_add]
      simp only [stored, holds.sp]
      ring
    refine Stacked.store (elements.element n count) holds sp ?_ (Nat.mul_one _).symm fits
      (fun i least inside => ?_) fun r member => ?_
    · rw [pushed, stored]
    · have last : i = count := by omega
      rw [last, ← sp, pushed, stored]
      exact loadLE_storeLE whole (by omega) _
    · rw [pushed] at member
      rcases List.mem_cons.mp member with rfl | member
      · exact .inr (by rw [← Nat.mul_succ]; exact Nat.mul_le_mul_left _ (by omega))
      · exact .inl member

/-! ## Two elements at a time -/

/-- The state in which a pair is stored. -/
def paired (elements : Elements) (i : BitVec 32) (p : Pushing 64) : Pushing 64 :=
  { p with
    sp := p.sp - 8
    reads := (4 * i.toNat, 4) ::
      if i + 1 < elements.stackElements then (4 * (i + 1).toNat, 4) :: p.reads else p.reads }

def pair (elements : Elements) (i : BitVec 32) : BitVec 64 :=
  elements.element 32 i.toNat ++ if i + 1 < elements.stackElements then elements.element 32
    (i + 1).toNat else 0#32

/-- The state after a round. -/
def advance (elements : Elements) (i : BitVec 32) (p : Pushing 64) : Pushing 64 :=
  { stored (paired elements i p) (pair elements i) with
    sp := if elements.stackElements ≤ i + 1 then p.sp - 8 + 4 else p.sp - 8 }

variable {i i' : BitVec 32} {rounds : Nat} {p q before : Pushing 64}

theorem pushPairs_done (done : ¬i < elements.stackElements) :
    pushPairs elements (rounds + 1) i p = .ok i p := by
  simp only [pushPairs, done, ↓reduceIte, run_pure]

private theorem pushPairs_round (inside : i < elements.stackElements) :
    pushPairs elements (rounds + 1) i p =
      (store (pair elements i) >>= fun _ =>
        if elements.stackElements ≤ i + 1 then moveSp 4 >>= fun _ => pushPairs elements rounds (i + 2)
        else pushPairs elements rounds (i + 2)) (paired elements i p) := by
  rw [pushPairs, if_pos inside]
  by_cases both : i + 1 < elements.stackElements
  · simp only [both, ↓reduceIte, readElement, moveSp, run_bind, run_modify, pair,
      paired, ← BitVec.sub_eq_add_neg]
    rfl
  · simp only [both, ↓reduceIte, readElement, moveSp, run_bind, run_modify, run_pure, pair,
      paired, ← BitVec.sub_eq_add_neg]
    rfl

theorem pushPairs_granted (inside : i < elements.stackElements)
    (granted : Granted p.inferior (p.sp - 8)) :
    pushPairs elements (rounds + 1) i p = pushPairs elements rounds (i + 2) (advance elements i p) := by
  have stores := store_granted (p := paired elements i p) granted (pair elements i)
  rw [pushPairs_round inside, run_bind, stores]
  by_cases last : elements.stackElements ≤ i + 1
  · simp only [last, ↓reduceIte, moveSp, run_bind, run_modify, advance]
    rfl
  · simp only [last, ↓reduceIte, advance]
    rfl

theorem pushPairs_ran (inside : i < elements.stackElements)
    (ran : pushPairs elements (rounds + 1) i p = .ok i' q) :
    Granted p.inferior (p.sp - 8) ∧ pushPairs elements rounds (i + 2) (advance elements i p) =
      .ok i' q := by
  have granted : Granted p.inferior (p.sp - 8) := by
    rw [pushPairs_round inside, run_bind] at ran
    cases stores : store (pair elements i) (paired elements i p) with
    | ok _ r => exact (store_ran stores).1
    | error e r =>
      rw [stores] at ran
      cases ran
  rw [pushPairs_granted inside granted] at ran
  exact ⟨granted, ran⟩

private theorem succ_toNat (inside : i < elements.stackElements) : (i + 1).toNat = i.toNat + 1 := by
  have bound := BitVec.lt_def.mp inside
  have small := elements.stackElements.isLt
  have one : (1 : BitVec 32).toNat = 1 := rfl
  rw [BitVec.toNat_add, one, Nat.mod_eq_of_lt (by omega)]

/-- A pair of elements takes its places. -/
theorem advance_stacked (both : i.toNat + 1 < elements.stackElements.toNat)
    (holds : Stacked elements 32 before i.toNat p) :
    Stacked elements 32 before (i.toNat + 2) (advance elements i p) := by
  have small := elements.stackElements.isLt
  have inside : i < elements.stackElements := BitVec.lt_def.mpr (by omega)
  have next := succ_toNat inside
  have inside' : i + 1 < elements.stackElements := BitVec.lt_def.mpr (by omega)
  have unfinished : ¬elements.stackElements ≤ i + 1 := BitVec.not_le.mpr inside'
  have moved : p.sp - 8 = before.sp - BitVec.ofNat 64 (32 / 8 * (i.toNat + 2)) := by
    have eight : BitVec.ofNat 64 (32 / 8 * 2) = 8 := rfl
    rw [holds.sp, Nat.mul_add, BitVec.ofNat_add, eight]
    ring
  have sp : (advance elements i p).sp = before.sp - BitVec.ofNat 64 (32 / 8 * (i.toNat + 2)) := by
    simp only [advance, unfinished, ↓reduceIte, moved]
  have contents : (advance elements i p).inferior.memory =
      storeLE p.inferior.memory (advance elements i p).sp
        (elements.element 32 i.toNat ++ elements.element 32 (i.toNat + 1) : BitVec (32 + 32)) := by
    simp only [advance, stored, pair, paired, unfinished, inside', ↓reduceIte, next]
  have halves := loadLE_storeLE_append (m := p.inferior.memory) (a :=
    (advance elements i p).sp) (by decide) (by decide)
    (by decide) (elements.element 32 i.toNat) (elements.element 32 (i.toNat + 1))
  rw [← contents] at halves
  refine Stacked.store _ holds sp contents rfl (by omega) (fun k least most => ?_) fun r member => ?_
  · by_cases first : k = i.toNat
    · have place : before.sp - BitVec.ofNat 64 (32 / 8 * (k + 1)) =
          (advance elements i p).sp + BitVec.ofNat 64 (32 / 8) := by
        rw [sp, first, show 32 / 8 * (i.toNat + 2) = 32 / 8 * (i.toNat + 1) + 32 / 8 by omega,
          BitVec.ofNat_add]
        ring
      rw [place, halves.2, first]
    · have second : k = i.toNat + 1 := by omega
      rw [second, ← sp, halves.1]
  · simp only [advance, stored, paired, inside', ↓reduceIte, next, List.mem_cons] at member
    rcases member with rfl | rfl | old
    · exact .inr (by simp only; omega)
    · exact .inr (by simp only; omega)
    · exact .inl old

/-- An even number of elements is stacked. -/
theorem pushPairs_stacked (even : elements.stackElements.toNat % 2 = 0)
    (holds : Stacked elements 32 before i.toNat p)
    (parity : i.toNat % 2 = 0) (le : i.toNat ≤ elements.stackElements.toNat)
    (ran : pushPairs elements rounds i p = .ok i' q) :
    i' = elements.stackElements ∧ Stacked elements 32 before elements.stackElements.toNat q := by
  induction rounds generalizing i p with
  | zero => cases ran
  | succ rounds ih =>
    by_cases inside : i < elements.stackElements
    · have below := BitVec.lt_def.mp inside
      have small := elements.stackElements.isLt
      have next : (i + 2).toNat = i.toNat + 2 := by
        have two : (2 : BitVec 32).toNat = 2 := rfl
        rw [BitVec.toNat_add, two, Nat.mod_eq_of_lt (by omega)]
      refine ih ?_ (by omega) (by omega) (pushPairs_ran inside ran).2
      rw [next]
      exact advance_stacked (by omega) holds
    · have last : i = elements.stackElements := by
        have above := mt BitVec.lt_def.mpr inside
        exact BitVec.eq_of_toNat_eq (by omega)
      rw [pushPairs_done inside] at ran
      cases ran
      exact ⟨last, last ▸ holds⟩

/-! ## An odd number of elements -/

private theorem advance_parity (parity : i.toNat % 2 = 0) : (i + 2).toNat % 2 = 0 := by
  have two : (2 : BitVec 32).toNat = 2 := rfl
  rw [BitVec.toNat_add, two]
  omega

/-- The greatest number of elements is odd, and the counter, which is even,
never gets there. -/
theorem pushPairs_unending (most : elements.stackElements.toNat = 2 ^ 32 - 1)
    (parity : i.toNat % 2 = 0) :
    pushPairs elements rounds i p ≠ .ok i' q := by
  induction rounds generalizing i p with
  | zero => exact fun ran => by cases ran
  | succ rounds ih =>
    intro ran
    have inside : i < elements.stackElements := by
      rw [BitVec.lt_def, most]
      omega
    exact ih (advance_parity parity) (pushPairs_ran inside ran).2

/-- Where the pairs of an array go, the last of them filled up. -/
def pairPlace (sp : BitVec 64) (k : Nat) : BitVec 64 := sp - BitVec.ofNat 64 (8 * (k + 1))

/-- What the rounds of an odd number of elements come to: one word is above the
stack pointer that the last pair has below. -/
private theorem advance_odd {sp : BitVec 64} {k : Nat} (counter : i.toNat = 2 * k)
    (odd : elements.stackElements.toNat % 2 = 1) (room : elements.stackElements.toNat + 1 < 2 ^ 32)
    (inside : i < elements.stackElements)
    (place : p.sp = sp - BitVec.ofNat 64 (8 * k)) :
    p.sp - 8 = pairPlace sp k ∧ (i + 2).toNat = 2 * (k + 1) ∧
      (advance elements i p).sp =
        if i + 2 < elements.stackElements then sp - BitVec.ofNat 64 (8 * (k + 1))
        else sp - BitVec.ofNat 64 (4 * elements.stackElements.toNat) := by
  have below := BitVec.lt_def.mp inside
  have next := succ_toNat inside
  have eight : BitVec.ofNat 64 (8 * 1) = 8 := rfl
  have down : p.sp - 8 = sp - BitVec.ofNat 64 (8 * (k + 1)) := by
    rw [place, Nat.mul_add, BitVec.ofNat_add, eight]
    ring
  have two : (2 : BitVec 32).toNat = 2 := rfl
  have later : (i + 2).toNat = 2 * (k + 1) := by
    rw [BitVec.toNat_add, two, Nat.mod_eq_of_lt (by omega), counter, Nat.mul_add]
  refine ⟨down, later, ?_⟩
  by_cases last : elements.stackElements ≤ i + 1
  · have count : elements.stackElements.toNat = 2 * k + 1 := by
      have most := BitVec.le_def.mp last
      omega
    have above : ¬i + 2 < elements.stackElements := by
      rw [BitVec.lt_def]
      omega
    have four : 8 * (k + 1) = 4 * (2 * k + 1) + 4 := by omega
    have up : BitVec.ofNat 64 4 = 4 := rfl
    simp only [advance, last, above, ↓reduceIte, down, count]
    rw [four, BitVec.ofNat_add, up]
    ring
  · have more : i + 2 < elements.stackElements := by
      have least := mt BitVec.le_def.mpr last
      rw [BitVec.lt_def]
      omega
    simp only [advance, last, more, ↓reduceIte, down]

/-- The pairs are stored if and only if every store is granted. -/
theorem pushPairs_odd (rounds : Nat) {p : Pushing 64} {sp : BitVec 64} {k : Nat}
    (odd : elements.stackElements.toNat % 2 = 1)
    (room : elements.stackElements.toNat + 1 < 2 ^ 32) (counter : i.toNat = 2 * k)
    (inside : i < elements.stackElements)
    (place : p.sp = sp - BitVec.ofNat 64 (8 * k))
    (enough : elements.stackElements.toNat + 1 < i.toNat + 2 * rounds) :
    (∀ i' q, pushPairs elements rounds i p = .ok i' q → i' = elements.stackElements + 1 ∧
      q.sp = sp - BitVec.ofNat 64 (4 * elements.stackElements.toNat) ∧ ∀ a, Granted q.inferior a ↔
      Granted p.inferior a) ∧
    ((∃ i' q, pushPairs elements rounds i p = .ok i' q) ↔
      ∀ l, k ≤ l → 2 * l < elements.stackElements.toNat → Granted p.inferior (pairPlace sp l)) := by
  induction rounds generalizing i p k with
  | zero =>
    have below := BitVec.lt_def.mp inside
    omega
  | succ rounds ih =>
    have below := BitVec.lt_def.mp inside
    obtain ⟨down, later, moved⟩ := advance_odd counter odd room inside place
    by_cases granted : Granted p.inferior (pairPlace sp k)
    · have rest : (∀ l, k ≤ l → 2 * l < elements.stackElements.toNat →
          Granted p.inferior (pairPlace sp l)) ↔
          ∀ l, k + 1 ≤ l → 2 * l < elements.stackElements.toNat →
          Granted p.inferior (pairPlace sp l) := by
        constructor
        · exact fun all l least => all l (by omega)
        · intro all l least most
          by_cases here : l = k
          · exact here ▸ granted
          · exact all l (by omega) most
      rw [pushPairs_granted inside (down ▸ granted), rest]
      by_cases more : i + 2 < elements.stackElements
      · rw [if_pos more] at moved
        exact ih later more moved (by omega)
      · rw [if_neg more] at moved
        have above := mt BitVec.lt_def.mpr more
        have last : i + 2 = elements.stackElements + 1 := by
          apply BitVec.eq_of_toNat_eq
          have one : (1 : BitVec 32).toNat = 1 := rfl
          rw [BitVec.toNat_add elements.stackElements, one, Nat.mod_eq_of_lt (by omega)]
          omega
        obtain ⟨rounds, rfl⟩ : ∃ r, rounds = r + 1 := ⟨rounds - 1, by omega⟩
        rw [pushPairs_done more]
        refine ⟨fun i' q ran => ?_, iff_of_true ⟨_, _, rfl⟩ fun l least most => by omega⟩
        cases ran
        exact ⟨last, moved, fun _ => Iff.rfl⟩
    · refine ⟨fun i' q ran => absurd (down ▸ (pushPairs_ran inside ran).1) granted,
        iff_of_false ?_ fun all => ?_⟩
      · rintro ⟨i', q, ran⟩
        exact granted (down ▸ (pushPairs_ran inside ran).1)
      · exact granted (all k (Nat.le_refl _) (by omega))

/-! ## The whole stack -/

/-- The elements are there in the order of the calling convention, only they
have been read, and nothing else has changed. -/
structure Laid (elements : Elements) (w : Nat) (sp : BitVec 64) (inferior : Inferior 64)
    (p : Pushing 64) : Prop where
  loads : ∀ k < elements.stackElements.toNat,
      loadLE w p.inferior.memory (p.sp + BitVec.ofNat 64 (w / 8 * k)) =
    elements.element w (elements.stackElements.toNat - 1 - k)
  reads : ∀ r ∈ p.reads, r.1 + r.2 ≤ w / 8 * elements.stackElements.toNat
  frame : ∀ b, (sp - p.sp).toNat ≤ (b - p.sp).toNat → p.inferior.memory b = inferior.memory b

/-- If all the stores are granted, the function starts with its stack laid. -/
def StacksRightly (mode32 : Bool) (elements : Elements) (sp : BitVec 64) (inferior : Inferior 64) :
    Prop :=
  ∀ p, pushStack64 mode32 elements ⟨sp, inferior, []⟩ = .ok () p →
  Laid elements (if mode32 then 32 else 64) sp inferior p

/-- One of the stores of an odd number of elements is not granted. -/
def Refused (elements : Elements) (sp : BitVec 64) (inferior : Inferior 64) : Prop :=
  ¬((∀ l, 2 * l < elements.stackElements.toNat → Granted inferior (pairPlace sp l)) ∧
    Granted inferior (sp - BitVec.ofNat 64 (4 * elements.stackElements.toNat)))

theorem laid_of_stacked {sp : BitVec 64} {inferior : Inferior 64}
    (fits : w / 8 * elements.stackElements.toNat < 2 ^ 64)
    (holds : Stacked elements w ⟨sp, inferior, []⟩ elements.stackElements.toNat p) :
    Laid elements w sp inferior p where
  loads k inside := by
    have place : p.sp + BitVec.ofNat 64 (w / 8 * k) =
        sp - BitVec.ofNat 64 (w / 8 * (elements.stackElements.toNat - 1 - k + 1)) := by
      have split : elements.stackElements.toNat = elements.stackElements.toNat - 1 - k + 1 + k :=
        by omega
      rw [holds.sp]
      generalize elements.stackElements.toNat - 1 - k + 1 = rest at split ⊢
      rw [split, Nat.mul_add, BitVec.ofNat_add]
      ring
    rw [place]
    exact holds.loads _ (by omega)
  reads r member := by
    rcases holds.reads r member with old | new
    · cases old
    · exact new
  frame b outside := by
    refine holds.frame b ?_
    have size : (sp - p.sp).toNat = w / 8 * elements.stackElements.toNat := by
      have whole : sp - p.sp = BitVec.ofNat 64 (w / 8 * elements.stackElements.toNat) := by
        rw [holds.sp]
        ring
      rw [whole, BitVec.toNat_ofNat, Nat.mod_eq_of_lt fits]
    rwa [size] at outside

/-- An odd number of elements is stacked if and only if no store is refused.
What is stored last is read behind the array. -/
theorem pushStack32_odd (elements : Elements) (sp : BitVec 64) (inferior : Inferior 64)
    (odd : elements.stackElements.toNat % 2 = 1)
    (room : elements.stackElements.toNat + 1 < 2 ^ 32) :
    (∀ p, pushStack32 elements ⟨sp, inferior, []⟩ = .ok () p →
      (8 * (elements.stackElements.toNat + 1), 8) ∈ p.reads) ∧
    ((∃ p, pushStack32 elements ⟨sp, inferior, []⟩ = .ok () p) ↔ ¬Refused elements sp inferior) := by
  have zero : (0 : BitVec 32).toNat = 2 * 0 := rfl
  have one : (1 : BitVec 32).toNat = 1 := rfl
  have inside : (0 : BitVec 32) < elements.stackElements := by
    rw [BitVec.lt_def, zero]
    omega
  have next : (elements.stackElements + 1).toNat = elements.stackElements.toNat + 1 := by
    rw [BitVec.toNat_add, one, Nat.mod_eq_of_lt (by omega)]
  have behind : elements.stackElements < elements.stackElements + 1 := by
    rw [BitVec.lt_def]
    omega
  have place : (⟨sp, inferior, []⟩ : Pushing 64).sp = sp - BitVec.ofNat 64 (8 * 0) :=
    (BitVec.sub_zero sp).symm
  have enough : elements.stackElements.toNat + 1 < (0 : BitVec 32).toNat + 2 * doubleWords := by
    rw [zero, doubleWords]
    omega
  obtain ⟨shape, all⟩ := pushPairs_odd doubleWords odd room zero inside place enough
  simp only [Nat.zero_le, true_implies] at all
  rw [Refused, not_not, ← all]
  -- what is left to do when the pairs are stored
  have rest : ∀ {i' q}, pushPairs elements doubleWords 0 ⟨sp, inferior, []⟩ = .ok i' q →
      pushStack32 elements ⟨sp, inferior, []⟩ =
        store (elements.element 64 (elements.stackElements.toNat + 1))
          { q with reads := (8 * (elements.stackElements.toNat + 1), 8) :: q.reads } := by
    intro i' q pairs
    obtain ⟨isLast, -, -⟩ := shape i' q pairs
    rw [pushStack32, run_bind, pairs, isLast]
    simp only [behind, ↓reduceIte, readElement, run_bind, run_modify, run_pure, next]
  cases pairs : pushPairs elements doubleWords 0 ⟨sp, inferior, []⟩ with
  | error e q =>
    have fails : ∀ p, pushStack32 elements ⟨sp, inferior, []⟩ ≠ .ok () p := by
      intro p ran
      rw [pushStack32, run_bind, pairs] at ran
      cases ran
    refine ⟨fun p ran => absurd ran (fails p), iff_of_false (fun ⟨p, ran⟩ => fails p ran) ?_⟩
    rintro ⟨⟨i', q', ran⟩, -⟩
    cases ran
  | ok i' q =>
    obtain ⟨-, place, same⟩ := shape i' q pairs
    rw [rest pairs]
    refine ⟨fun p ran => ?_, ?_⟩
    · rw [(store_ran ran).2]
      exact List.mem_cons_self
    · rw [← same, ← place]
      constructor
      · rintro ⟨p, ran⟩
        exact ⟨⟨i', q, rfl⟩, (store_ran ran).1⟩
      · rintro ⟨-, granted⟩
        exact ⟨_, store_granted (p := { q with reads := _ :: q.reads }) granted _⟩

/-- An even number of elements is laid. -/
private theorem pushStack32_even {sp : BitVec 64} {inferior : Inferior 64}
    (even : elements.stackElements.toNat % 2 = 0)
    (ran : pushStack32 elements ⟨sp, inferior, []⟩ = .ok () p) : Laid elements 32 sp inferior p := by
  have bound := elements.stackElements.isLt
  rw [pushStack32, run_bind] at ran
  cases pairs : pushPairs elements doubleWords 0 ⟨sp, inferior, []⟩ with
  | error e q =>
    rw [pairs] at ran
    cases ran
  | ok i' q =>
    obtain ⟨isLast, stacked⟩ := pushPairs_stacked even Stacked.nothing rfl (Nat.zero_le _) pairs
    have finished : ¬elements.stackElements < i' := by simp [isLast]
    simp only [pairs, finished, ↓reduceIte, run_pure, EStateM.Result.ok.injEq, true_and] at ran
    exact laid_of_stacked (by omega) (ran ▸ stacked)

/-- The stack is laid if and only if the process is in AArch64 state, the number
of elements is even, or the function is not started: because the loop never
ends, or a store is refused. -/
theorem stacks_rightly_iff (mode32 : Bool) (elements : Elements) (sp : BitVec 64)
    (inferior : Inferior 64) :
    StacksRightly mode32 elements sp inferior ↔
      mode32 = false ∨ elements.stackElements.toNat % 2 = 0 ∨ elements.stackElements.toNat = 2 ^ 32 - 1 ∨
        Refused elements sp inferior := by
  have bound := elements.stackElements.isLt
  cases mode32 with
  | false =>
    refine iff_of_true (fun p ran => ?_) (.inl rfl)
    have fits : 64 / 8 * elements.stackElements.toNat < 2 ^ 64 := by omega
    exact laid_of_stacked fits (pushElements_stacked (by decide) (by decide) (Nat.le_refl _) fits _
      rfl () p ran)
  | true =>
    simp only [Bool.true_eq_false, false_or]
    by_cases even : elements.stackElements.toNat % 2 = 0
    · exact iff_of_true (fun p ran => pushStack32_even even ran) (.inl even)
    by_cases most : elements.stackElements.toNat = 2 ^ 32 - 1
    · refine iff_of_true (fun p ran => ?_) (.inr (.inl most))
      simp only [pushStack64, ↓reduceIte, pushStack32, run_bind] at ran
      cases pairs : pushPairs elements doubleWords 0 ⟨sp, inferior, []⟩ with
      | error e q =>
        rw [pairs] at ran
        cases ran
      | ok i' q => exact absurd pairs (pushPairs_unending most rfl)
    · obtain ⟨reads, granted⟩ := pushStack32_odd elements sp inferior (by omega) (by omega)
      simp only [even, most, false_or]
      constructor
      · intro right
        by_contra unrefused
        obtain ⟨p, ran⟩ := granted.mpr unrefused
        have inArray : 8 * (elements.stackElements.toNat + 1) + 8 ≤ 4 * elements.stackElements.toNat :=
          (right p ran).reads _ (reads p ran)
        omega
      · exact fun refused p ran => absurd refused (granted.mp ⟨p, ran⟩)

private def everywhere : Inferior 64 where
  memory _ := 0
  mapped _ := true
  dead := false
  gone dead := Bool.noConfusion dead

private def oneElement : Elements where
  stackElements := 1
  stack _ := 7

/-- A function in AArch32 state that takes one element is started, but not with
this element on its stack alone. -/
theorem one_element_misplaced :
    (∃ p, pushStack64 true oneElement ⟨0x1000, everywhere, []⟩ = .ok () p) ∧
    ¬StacksRightly true oneElement 0x1000 everywhere := by
  have odd : oneElement.stackElements.toNat % 2 = 1 := rfl
  have room : oneElement.stackElements.toNat + 1 < 2 ^ 32 := by decide
  obtain ⟨reads, granted⟩ := pushStack32_odd oneElement 0x1000 everywhere odd room
  have unrefused : ¬Refused oneElement 0x1000 everywhere := by
    refine not_not.mpr ⟨fun l inside => ?_, by decide⟩
    have first : l = 0 := by
      have count : oneElement.stackElements.toNat = 1 := rfl
      omega
    rw [first]
    decide
  obtain ⟨p, ran⟩ := granted.mpr unrefused
  refine ⟨⟨p, ran⟩, fun right => ?_⟩
  exact absurd ((right p ran).reads _ (reads p ran)) (by decide)

end Adbi.CallStackProofs
