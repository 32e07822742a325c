import Adbi.Payload

/-! What `payload_check` guarantees about the buffers it accepts. The chain of
elements the checker walked is described without the checker; the reads of the
checker and of the search are then compared with the bounds of the buffer, and
the comparison is exact: the guarantee holds on precisely the buffers whose
reachable strings are not empty and do not wrap the address space. -/
namespace Adbi.PayloadProofs
open Adbi.Lib Adbi.Lib.Traced Adbi.Payload

/-! ## Headers as plain values -/

section Header
variable (memory : Memory) (element : Word)

def typeOf : BitVec 8 := memory element

def nameSizeOf : BitVec 16 := memory (element + 2#32 + 1#32) ++ memory (element + 2#32)

def dataSizeOf : Word :=
  (memory (element + 4#32 + 2#32 + 1#32) ++ memory (element + 4#32 + 2#32)) ++
    (memory (element + 4#32 + 1#32) ++ memory (element + 4#32))

/-- The size the code computes, which may have wrapped. -/
def sizeOf : Word := (nameSizeOf memory element).setWidth 32 + dataSizeOf memory element + headerSize

/-- The size the header announces. -/
def extent : Nat := 8 + (nameSizeOf memory element).toNat + (dataSizeOf memory element).toNat

def dataOf : Word := element + headerSize + (nameSizeOf memory element).setWidth 32

@[simp] theorem get_type_value : (payloadElementGetType memory element).value =
    typeOf memory element := rfl

@[simp] theorem name_size_value :
    (elementNameSize memory element).value = nameSizeOf memory element := rfl

@[simp] theorem data_size_value :
    (elementDataSize memory element).value = dataSizeOf memory element := rfl

@[simp] theorem get_size_value : (payloadElementGetSize memory element).value =
    sizeOf memory element := rfl

@[simp] theorem get_data_value : (payloadElementGetData memory element).value =
    dataOf memory element := rfl

@[simp] theorem get_next_value :
    (payloadElementGetNext memory element).value = element + sizeOf memory element := rfl

/-- The bytes of a header that the code ever looks at: all but the reserved one. -/
def HeaderWithin (p : Word → Prop) : Prop :=
  p element ∧ p (element + 2#32) ∧ p (element + 2#32 + 1#32) ∧ p (element + 4#32) ∧
  p (element + 4#32 + 1#32) ∧
    p (element + 4#32 + 2#32) ∧ p (element + 4#32 + 2#32 + 1#32)

variable {memory element} {p : Word → Prop}

theorem get_type_within (header : HeaderWithin element p) :
    Within p (payloadElementGetType memory element) := by
  simpa [payloadElementGetType] using header.1

theorem name_size_within (header : HeaderWithin element p) :
    Within p (elementNameSize memory element) := by
  simp [elementNameSize, loadU16, header.2.1, header.2.2.1]

theorem data_size_within (header : HeaderWithin element p) :
    Within p (elementDataSize memory element) := by
  obtain ⟨-, -, -, a, b, c, d⟩ := header
  simp [elementDataSize, loadU32, loadU16, a, b, c, d]

theorem get_size_within (header : HeaderWithin element p) :
    Within p (payloadElementGetSize memory element) := by
  simp [payloadElementGetSize, name_size_within header, data_size_within header]

theorem get_next_within (header : HeaderWithin element p) :
    Within p (payloadElementGetNext memory element) := by
  simp [payloadElementGetNext, get_size_within header]

theorem get_data_within (header : HeaderWithin element p) :
    Within p (payloadElementGetData memory element) := by
  simp [payloadElementGetData, name_size_within header]

end Header

/-! ## One element -/

/-- The name field holds one C string that fills it. -/
def NameFilled (memory : Memory) (element : Word) : Prop :=
  nameSizeOf memory element ≠ 0#16 ∧
  memory (element + headerSize + ((nameSizeOf memory element).setWidth 32 - 1#32)) = 0#8 ∧
  ∀ k, k + 1 < (nameSizeOf memory element).toNat →
  memory (element + headerSize + BitVec.ofNat 32 k) ≠ 0#8

/-- The data field has the size of its type; a string ends with a NUL. -/
def DataFilled (memory : Memory) (element : Word) : Prop :=
  (typeOf memory element = PayloadType.terminator.code ∧ dataSizeOf memory element = 0#32) ∨
  (typeOf memory element = PayloadType.i32.code ∧ dataSizeOf memory element = 4#32) ∨
  (typeOf memory element = PayloadType.u32.code ∧ dataSizeOf memory element = 4#32) ∨
  (typeOf memory element = PayloadType.i64.code ∧ dataSizeOf memory element = 8#32) ∨
  (typeOf memory element = PayloadType.u64.code ∧ dataSizeOf memory element = 8#32) ∨
  (typeOf memory element = PayloadType.str.code ∧
    memory (dataOf memory element + (dataSizeOf memory element - 1#32)) = 0#8)

/-- What the code means by a correct element. -/
structure Element (memory : Memory) (element size : Word) : Prop where
  header : headerSize ≤ size
  fits : sizeOf memory element ≤ size
  name : NameFilled memory element
  data : DataFilled memory element

private theorem offset_succ (address : Word) (k : Nat) :
    address + 1#32 + BitVec.ofNat 32 k = address + BitVec.ofNat 32 (k + 1) := by
  rw [Nat.add_comm k 1, BitVec.ofNat_add, ← BitVec.add_assoc]

/-- `strlen` finds the first NUL, whenever there is one before its limit. -/
theorem strlen_eq_iff (bound : n < limit) :
    (strlen memory limit address).value = n ↔
      memory (address + BitVec.ofNat 32 n) = 0#8 ∧
        ∀ k < n, memory (address + BitVec.ofNat 32 k) ≠ 0#8 := by
  induction limit generalizing address n with
  | zero => omega
  | succ limit ih =>
    by_cases here : memory address = 0#8
    · cases n with
      | zero => simp [strlen, here]
      | succ n =>
        have first := fun (all : ∀ k < n + 1, memory (address + BitVec.ofNat 32 k) ≠ 0#8) =>
          all 0 (by omega)
        simp only [BitVec.add_zero, ne_eq] at first
        constructor
        · intro same
          simp [strlen, here] at same
        · rintro ⟨-, all⟩
          exact absurd here (first all)
    · cases n with
      | zero => simp [strlen, here]
      | succ n =>
        have rest := @ih n (address + 1#32) (by omega)
        simp only [offset_succ] at rest
        simp only [strlen, value_bind, value_load, here, ↓reduceIte, value_pure,
          Nat.add_right_cancel_iff, rest]
        refine and_congr_right fun _ => ⟨fun all k below => ?_, fun all k below => all _ (by omega)⟩
        cases k with
        | zero => simpa using here
        | succ k => exact all k (by omega)

/-- `strlen` reads the string and its terminator, and nothing else. -/
theorem strlen_within :
    Within p (strlen memory limit address) ↔
      ∀ k < limit, k ≤ (strlen memory limit address).value → p (address + BitVec.ofNat 32 k) := by
  induction limit generalizing address with
  | zero => simp [strlen]
  | succ limit ih =>
    by_cases here : memory address = 0#8
    · simp only [strlen, within_bind, within_load, value_load, here, ↓reduceIte, within_pure,
        and_true, value_bind, value_pure, Nat.le_zero]
      exact ⟨fun own k _ zero => by simpa [zero] using own,
        fun all => by simpa using all 0 (by omega) rfl⟩
    · simp only [strlen, within_bind, within_load, value_load, here, ↓reduceIte, within_pure,
        and_true, value_bind, value_pure, ih, offset_succ]
      constructor
      · rintro ⟨own, rest⟩ k below bound
        cases k with
        | zero => simpa using own
        | succ k => exact rest k (by omega) (by omega)
      · intro all
        exact ⟨by simpa using all 0 (by omega) (by omega), fun k below bound =>
          all (k + 1) (by omega) (by omega)⟩

theorem check_data_iff :
    (checkElementData memory element (typeOf memory element) (dataSizeOf memory element)).value = true ↔
      DataFilled memory element := by
  unfold checkElementData DataFilled
  repeat' split
  all_goals simp_all [PayloadType.code]

theorem last_name_byte (nonzero : nameSizeOf memory element ≠ 0#16) :
    (nameSizeOf memory element).setWidth 32 - 1#32 =
      BitVec.ofNat 32 ((nameSizeOf memory element).toNat - 1) := by
  have positive : (nameSizeOf memory element).toNat ≠ 0 := fun zero =>
    nonzero (BitVec.eq_of_toNat_eq (by simpa using zero))
  have bound := (nameSizeOf memory element).isLt
  apply BitVec.eq_of_toNat_eq
  simp only [BitVec.toNat_sub, BitVec.toNat_setWidth, BitVec.toNat_ofNat]
  omega

private theorem name_scan (nonzero : nameSizeOf memory element ≠ 0#16)
    (ends : memory (element + headerSize + ((nameSizeOf memory element).setWidth 32 - 1#32)) = 0#8) :
    (strlen memory (nameSizeOf memory element).toNat (element + headerSize)).value + 1 =
        (nameSizeOf memory element).toNat ↔
      ∀ k, k + 1 < (nameSizeOf memory element).toNat →
        memory (element + headerSize + BitVec.ofNat 32 k) ≠ 0#8 := by
  have positive : (nameSizeOf memory element).toNat ≠ 0 := fun zero =>
    nonzero (BitVec.eq_of_toNat_eq (by simpa using zero))
  have found : (strlen memory (nameSizeOf memory element).toNat (element + headerSize)).value =
      (nameSizeOf memory element).toNat - 1 ↔ _ := strlen_eq_iff (by omega)
  rw [last_name_byte nonzero] at ends
  simp only [ends, true_and] at found
  constructor
  · intro same k below
    exact found.mp (by omega) k (by omega)
  · intro all
    have := found.mpr fun k below => all k (by omega)
    omega

/-- The element check accepts exactly the correct elements. -/
theorem check_element_iff :
    (payloadCheckElement memory element size).value = true ↔ Element memory element size := by
  simp only [payloadCheckElement]
  by_cases short : size < headerSize
  · simp only [short, ↓reduceIte, value_pure, Bool.false_eq_true, false_iff]
    exact fun ok => absurd short (BitVec.not_lt.mpr ok.header)
  by_cases cut : size < sizeOf memory element
  · simp only [short, ↓reduceIte, value_bind, get_size_value, cut, value_pure, Bool.false_eq_true,
      false_iff]
    exact fun ok => absurd cut (BitVec.not_lt.mpr ok.fits)
  by_cases nameless : nameSizeOf memory element = 0#16
  · simp only [short, ↓reduceIte, value_bind, get_size_value, cut, name_size_value, nameless,
      value_pure, Bool.false_eq_true, false_iff]
    exact fun ok => ok.name.1 nameless
  simp only [short, ↓reduceIte, value_bind, get_size_value, cut, name_size_value, nameless,
    payloadElementGetName, value_load]
  by_cases ends : memory (element + headerSize + ((nameSizeOf memory element).setWidth 32 - 1#32)) = 0#8
  · simp only [ends, ne_eq, not_true_eq_false, ↓reduceIte, value_bind]
    by_cases scan : (strlen memory (nameSizeOf memory element).toNat (element + headerSize)).value + 1 =
        (nameSizeOf memory element).toNat
    · simp only [scan, not_true_eq_false, ↓reduceIte, value_bind, get_type_value, data_size_value,
        check_data_iff]
      exact ⟨fun data => ⟨BitVec.not_lt.mp short, BitVec.not_lt.mp cut,
        ⟨nameless, ends, (name_scan nameless ends).mp scan⟩, data⟩, fun ok => ok.data⟩
    · simp only [scan, not_false_eq_true, ↓reduceIte, value_pure, Bool.false_eq_true, false_iff]
      exact fun ok => scan ((name_scan nameless ends).mpr ok.name.2.2)
  · simp only [ends, ne_eq, not_false_eq_true, ↓reduceIte, value_pure, Bool.false_eq_true, false_iff]
    exact fun ok => ends ok.name.2.1

/-- On a correct element the check reads the header, every byte of the name
and, for a string, the byte it takes for the last one. -/
theorem check_element_within (ok : Element memory element size) (header : HeaderWithin element p) :
    Within p (payloadCheckElement memory element size) ↔
      (∀ k < (nameSizeOf memory element).toNat, p (element + headerSize + BitVec.ofNat 32 k)) ∧
      (typeOf memory element = PayloadType.str.code →
        p (dataOf memory element + (dataSizeOf memory element - 1#32))) := by
  have nonzero := ok.name.1
  have scan := (name_scan nonzero ok.name.2.1).mpr ok.name.2.2
  have data : Within p
      (checkElementData memory element (typeOf memory element) (dataSizeOf memory element)) ↔
      (typeOf memory element = PayloadType.str.code →
        p (dataOf memory element + (dataSizeOf memory element - 1#32))) := by
    unfold checkElementData
    repeat' split
    all_goals simp_all [PayloadType.code, get_data_within header]
  have string : Within p (strlen memory (nameSizeOf memory element).toNat (element + headerSize)) ↔
      ∀ k < (nameSizeOf memory element).toNat, p (element + headerSize + BitVec.ofNat 32 k) := by
    rw [strlen_within]
    exact ⟨fun all k below => all k below (by omega), fun all k below _ => all k below⟩
  have last : (∀ k < (nameSizeOf memory element).toNat, p (element + headerSize + BitVec.ofNat 32 k)) →
      p (element + headerSize + ((nameSizeOf memory element).setWidth 32 - 1#32)) := by
    intro all
    rw [last_name_byte nonzero]
    exact all _ (by omega)
  simp only [payloadCheckElement, BitVec.not_lt.mpr ok.header, BitVec.not_lt.mpr ok.fits, ↓reduceIte,
    within_bind, get_size_within header, get_size_value, name_size_within header, name_size_value,
    nonzero, payloadElementGetName, within_load, value_load, ok.name.2.1, ne_eq, not_true_eq_false,
    true_and, scan, get_type_within header, get_type_value, data_size_within header, data_size_value,
    data, string]
  exact ⟨And.right, fun rest => ⟨last rest.1, rest⟩⟩

/-! ## The chain of elements -/

/-- The elements from `element` on, down to a terminator that uses up the last
of the `size` bytes. -/
inductive Chain (memory : Memory) : Word → Word → Prop where
  | last (ok : Element memory element size)
      (ends : typeOf memory element = PayloadType.terminator.code)
      (used : size = sizeOf memory element) : Chain memory element size
  | next (ok : Element memory element size)
      (goes : typeOf memory element ≠ PayloadType.terminator.code)
      (rest : Chain memory (element + sizeOf memory element) (size - sizeOf memory element)) :
      Chain memory element size

theorem Chain.head (chain : Chain memory element size) : Element memory element size := by
  cases chain with
  | last ok _ _ => exact ok
  | next ok _ _ => exact ok

private theorem loop_of_chain (chain : Chain memory element size) :
    ∃ fuel, (payloadCheckLoop memory fuel element size).value = some true := by
  induction chain with
  | @last element size ok ends used =>
    subst used
    refine ⟨1, ?_⟩
    simp [payloadCheckLoop, check_element_iff.mpr ok, ends]
  | @next element size ok goes rest ih =>
    obtain ⟨fuel, accepted⟩ := ih
    refine ⟨fuel + 1, ?_⟩
    simp [payloadCheckLoop, check_element_iff.mpr ok, goes, accepted]

private theorem chain_of_loop
    (accepted : (payloadCheckLoop memory fuel element size).value = some true) :
    Chain memory element size := by
  induction fuel generalizing element size with
  | zero => simp [payloadCheckLoop] at accepted
  | succ fuel ih =>
    by_cases ok : (payloadCheckElement memory element size).value = true
    · by_cases ends : typeOf memory element = PayloadType.terminator.code
      · simp [payloadCheckLoop, ok, ends] at accepted
        exact .last (check_element_iff.mp ok) ends (by bv_omega)
      · simp [payloadCheckLoop, ok, ends] at accepted
        exact .next (check_element_iff.mp ok) ends (ih accepted)
    · simp [payloadCheckLoop, ok] at accepted

/-- The checker accepts a buffer: it returns `true` after finitely many elements. -/
def Accepted (memory : Memory) (size : Word) : Prop :=
  ∃ fuel, (payloadCheck memory fuel size).value = some true

theorem accepted_iff_chain : Accepted memory size ↔ Chain memory 0 size :=
  ⟨fun ⟨_, accepted⟩ => chain_of_loop accepted, loop_of_chain⟩

theorem size_toNat : (sizeOf memory element).toNat = extent memory element % 2 ^ 32 := by
  have bound := (nameSizeOf memory element).isLt
  simp only [sizeOf, extent, headerSize, BitVec.toNat_add, BitVec.toNat_setWidth, BitVec.toNat_ofNat]
  omega

/-- Only a string can announce a size that does not fit a word. -/
theorem extent_fits (ok : Element memory element size)
    (plain : typeOf memory element ≠ PayloadType.str.code) : extent memory element < 2 ^ 32 := by
  have bound := (nameSizeOf memory element).isLt
  have small : (dataSizeOf memory element).toNat ≤ 8 := by
    rcases ok.data with ⟨_, eq⟩ | ⟨_, eq⟩ | ⟨_, eq⟩ | ⟨_, eq⟩ | ⟨_, eq⟩ | ⟨str, _⟩
    · simp [eq]
    · simp [eq]
    · simp [eq]
    · simp [eq]
    · simp [eq]
    · exact absurd str plain
  simp only [extent]
  omega

/-- An element whose size wrapped to zero would be checked forever. -/
theorem Chain.size_ne_zero (chain : Chain memory element size) :
    (sizeOf memory element).toNat ≠ 0 := by
  induction chain with
  | @last element size ok ends used =>
    have fits := extent_fits ok (by rw [ends]; decide)
    rw [size_toNat, Nat.mod_eq_of_lt fits]
    simp only [extent]
    omega
  | @next element size ok goes rest ih =>
    intro zero
    have same : sizeOf memory element = 0#32 := BitVec.eq_of_toNat_eq (by simpa using zero)
    rw [same, BitVec.add_zero] at ih
    exact ih zero

/-- Where an element of the chain stands in the buffer. -/
theorem header_within (ok : Element memory element left)
    (place : element.toNat + left.toNat = size.toNat) : HeaderWithin element (· < size) := by
  have room : 8 ≤ left.toNat := by simpa [headerSize, BitVec.le_def] using ok.header
  have bound := size.isLt
  refine ⟨?_, ?_, ?_, ?_, ?_, ?_, ?_⟩ <;>
    simp only [BitVec.lt_def, BitVec.toNat_add, BitVec.toNat_ofNat] <;> omega

private theorem next_place {size : Word} (ok : Element memory element left)
    (place : element.toNat + left.toNat = size.toNat) :
    (element + sizeOf memory element).toNat + (left - sizeOf memory element).toNat = size.toNat := by
  have fits := BitVec.le_def.mp ok.fits
  have bound := size.isLt
  rw [BitVec.toNat_add, BitVec.toNat_sub_of_le ok.fits]
  omega

private theorem name_within_iff (ok : Element memory element left)
    (place : element.toNat + left.toNat = size.toNat) :
    (∀ k < (nameSizeOf memory element).toNat,
        element + headerSize + BitVec.ofNat 32 k < size) ↔
      element.toNat + 8 + (nameSizeOf memory element).toNat ≤ size.toNat := by
  have room : 8 ≤ left.toNat := by simpa [headerSize, BitVec.le_def] using ok.header
  have bound := size.isLt
  have narrow := (nameSizeOf memory element).isLt
  simp only [BitVec.lt_def, BitVec.toNat_add, BitVec.toNat_ofNat, headerSize]
  constructor
  · intro all
    by_contra beyond
    -- the first name byte past the end of the buffer
    have := all (size.toNat - (element.toNat + 8)) (by omega)
    omega
  · intro inside k below
    omega

private theorem last_byte_within (chain : Chain memory element left)
    (place : element.toNat + left.toNat = size.toNat) :
    dataOf memory element + (dataSizeOf memory element - 1#32) < size := by
  have nonzero := chain.size_ne_zero
  have fits := BitVec.le_def.mp chain.head.fits
  have bound := size.isLt
  have same : dataOf memory element + (dataSizeOf memory element - 1#32) =
      element + (sizeOf memory element - 1#32) := by
    simp only [dataOf, sizeOf]
    bv_omega
  rw [same, BitVec.lt_def, BitVec.toNat_add, BitVec.toNat_sub_of_le]
  · simp only [BitVec.toNat_ofNat]
    omega
  · simp only [BitVec.le_def, BitVec.toNat_ofNat]
    omega

/-! ## What the checker and the search look at -/

/-- The elements the checker comes to, starting at the first one. -/
inductive Reached (memory : Memory) : Word → Word → Prop where
  | here : Reached memory element element
  | step (goes : typeOf memory element ≠ PayloadType.terminator.code)
      (rest : Reached memory (element + sizeOf memory element) found) : Reached memory element found

/-- The element carries this name. -/
def Named (memory : Memory) (name : CString) (element : Word) : Prop :=
  (strcmp memory name (payloadElementGetName element)).value = true

/-- The elements the search for a name comes to: every element before them has
another name. -/
inductive Visited (memory : Memory) (name : CString) : Word → Word → Prop where
  | here : Visited memory name element element
  | step (goes : typeOf memory element ≠ PayloadType.terminator.code)
      (other : ¬ Named memory name element)
      (rest : Visited memory name (element + sizeOf memory element) found) :
      Visited memory name element found

theorem Visited.reached (visited : Visited memory name element found) :
    Reached memory element found := by
  induction visited with
  | here => exact .here
  | step goes _ _ ih => exact .step goes ih

/-- Every element reached is itself the head of a chain that ends where the
buffer ends. -/
theorem Chain.at_reached {size : Word} (chain : Chain memory element left)
    (place : element.toNat + left.toNat = size.toNat) (reached : Reached memory element found) :
    ∃ rest, Chain memory found rest ∧ found.toNat + rest.toNat = size.toNat := by
  induction reached generalizing left with
  | here => exact ⟨left, chain, place⟩
  | step goes _ ih =>
    cases chain with
    | last _ ends _ => exact absurd ends goes
    | next ok _ rest => exact ih rest (next_place ok place)

/-- The checker stays inside the buffer exactly when every name it looks at does. -/
theorem check_within_iff (chain : Chain memory element left)
    (place : element.toNat + left.toNat = size.toNat) :
    (∀ fuel, Within (· < size) (payloadCheckLoop memory fuel element left)) ↔
      ∀ found, Reached memory element found →
        found.toNat + 8 + (nameSizeOf memory found).toNat ≤ size.toNat := by
  induction chain with
  | @last element left ok ends used =>
    have header := header_within ok place
    have own := (check_element_within ok header).trans
      (and_iff_left_of_imp fun _ _ => last_byte_within (.last ok ends used) place)
    have loop : (∀ fuel, Within (· < size) (payloadCheckLoop memory fuel element left)) ↔
        Within (· < size) (payloadCheckElement memory element left) := by
      refine ⟨fun all => ?_, fun inside fuel => ?_⟩
      · have := all 1
        simp only [payloadCheckLoop, within_bind] at this
        exact this.1
      · cases fuel with
        | zero => simp [payloadCheckLoop]
        | succ fuel =>
          simp [payloadCheckLoop, inside, check_element_iff.mpr ok, get_size_within header,
            get_type_within header, ends]
    rw [loop, own, name_within_iff ok place]
    constructor
    · intro inside found reached
      cases reached with
      | here => exact inside
      | step goes _ => exact absurd ends goes
    · exact fun all => all element .here
  | @next element left ok goes rest ih =>
    have header := header_within ok place
    have own := (check_element_within ok header).trans
      (and_iff_left_of_imp fun _ _ => last_byte_within (.next ok goes rest) place)
    have loop : (∀ fuel, Within (· < size) (payloadCheckLoop memory fuel element left)) ↔
        Within (· < size) (payloadCheckElement memory element left) ∧
          ∀ fuel, Within (· < size) (payloadCheckLoop memory fuel
            (element + sizeOf memory element) (left - sizeOf memory element)) := by
      have step : ∀ fuel, Within (· < size) (payloadCheckLoop memory (fuel + 1) element left) ↔
          Within (· < size) (payloadCheckElement memory element left) ∧
            Within (· < size) (payloadCheckLoop memory fuel
              (element + sizeOf memory element) (left - sizeOf memory element)) := by
        intro fuel
        simp [payloadCheckLoop, check_element_iff.mpr ok, get_size_within header,
          get_type_within header, goes, get_next_within header]
      refine ⟨fun all => ⟨((step 0).mp (all 1)).1, fun fuel => ((step fuel).mp (all (fuel + 1))).2⟩, ?_⟩
      rintro ⟨inside, later⟩ fuel
      cases fuel with
      | zero => simp [payloadCheckLoop]
      | succ fuel => exact (step fuel).mpr ⟨inside, later fuel⟩
    rw [loop, own, name_within_iff ok place, ih (next_place ok place)]
    constructor
    · rintro ⟨inside, later⟩ found reached
      cases reached with
      | here => exact inside
      | step _ further => exact later found further
    · exact fun all => ⟨all element .here, fun found reached => all found (.step goes reached)⟩

/-- Comparing with a NUL-free name never runs past the NUL of the other string. -/
theorem strcmp_within (plain : 0#8 ∉ name) (ends : memory (address + BitVec.ofNat 32 n) = 0#8)
    (inside : ∀ k ≤ n, p (address + BitVec.ofNat 32 k)) : Within p (strcmp memory name address) := by
  induction name generalizing address n with
  | nil =>
    have := inside 0 (Nat.zero_le n)
    simpa [strcmp] using this
  | cons char rest ih =>
    have own := inside 0 (Nat.zero_le n)
    simp only [BitVec.add_zero] at own
    simp only [strcmp, within_bind, within_load, value_load]
    refine ⟨by simpa using own, ?_⟩
    by_cases same : memory address = char
    · simp only [same, ↓reduceIte]
      cases n with
      | zero =>
        have : memory address = 0#8 := by simpa using ends
        exact absurd (this.symm.trans same ▸ List.mem_cons_self) plain
      | succ n =>
        exact ih (fun member => plain (List.mem_cons_of_mem _ member)) (n := n)
          (by rw [offset_succ]; exact ends)
          (fun k bound => by rw [offset_succ]; exact inside (k + 1) (by omega))
    · simp [same]

private theorem named_within {size : Word} (chain : Chain memory element left)
    (place : element.toNat + left.toNat = size.toNat) (plain : 0#8 ∉ name)
    (inside : element.toNat + 8 + (nameSizeOf memory element).toNat ≤ size.toNat) :
    Within (· < size) (strcmp memory name (payloadElementGetName element)) := by
  have nonzero := chain.head.name.1
  have positive : (nameSizeOf memory element).toNat ≠ 0 := fun zero =>
    nonzero (BitVec.eq_of_toNat_eq (by simpa using zero))
  refine strcmp_within plain (n := (nameSizeOf memory element).toNat - 1) ?_ ?_
  · rw [← last_name_byte nonzero]
    exact chain.head.name.2.1
  · exact fun k bound => (name_within_iff chain.head place).mpr inside k (by omega)

/-- The search stays inside the buffer when every name does. -/
theorem find_within {size : Word} (chain : Chain memory element left)
    (place : element.toNat + left.toNat = size.toNat) (plain : 0#8 ∉ name)
    (inside : ∀ found, Reached memory element found →
      found.toNat + 8 + (nameSizeOf memory found).toNat ≤ size.toNat) (fuel : Nat) :
    Within (· < size) (payloadFindLoop memory name fuel element) := by
  induction fuel generalizing element left with
  | zero => simp [payloadFindLoop]
  | succ fuel ih =>
    have header := header_within chain.head place
    have compare := named_within chain place plain (inside element .here)
    cases chain with
    | last _ ends _ => simp [payloadFindLoop, get_type_within header, ends]
    | next ok goes rest =>
      have later := ih rest (next_place ok place) (fun found reached =>
        inside found (.step goes reached))
      simp only [payloadFindLoop, within_bind, get_type_within header, get_type_value, goes, ↓reduceIte,
        compare, true_and]
      split
      · simp
      · simp [get_next_within header, later]

/-- The search ends, at the terminator or at the first element of that name. -/
theorem find_stops (chain : Chain memory element left) :
    ∃ fuel found, Visited memory name element found ∧
      ((typeOf memory found = PayloadType.terminator.code ∧
          (payloadFindLoop memory name fuel element).value = some none) ∨
        (Named memory name found ∧
          (payloadFindLoop memory name fuel element).value = some (some found))) := by
  induction chain with
  | @last element left ok ends used =>
    exact ⟨1, element, .here, .inl ⟨ends, by simp [payloadFindLoop, ends]⟩⟩
  | @next element left ok goes rest ih =>
    by_cases named : Named memory name element
    · refine ⟨1, element, .here, .inr ⟨named, ?_⟩⟩
      simp only [Named] at named
      simp [payloadFindLoop, goes, named]
    · obtain ⟨fuel, found, visited, result⟩ := ih
      refine ⟨fuel + 1, found, .step goes named visited, ?_⟩
      simp only [Named, Bool.not_eq_true] at named
      simpa [payloadFindLoop, goes, named] using result

/-- No element is empty, so that the check of a chain takes no more steps than there are bytes. -/
theorem check_ends (chain : Chain memory element size) (enough : size.toNat < fuel) :
    (payloadCheckLoop memory fuel element size).value = some true := by
  induction chain generalizing fuel with
  | @last element size ok ends used =>
    obtain ⟨fuel, rfl⟩ := Nat.exists_eq_succ_of_ne_zero (Nat.ne_of_gt (Nat.zero_lt_of_lt enough))
    subst used
    simp [payloadCheckLoop, check_element_iff.mpr ok, ends]
  | @next element size ok goes rest ih =>
    obtain ⟨fuel, rfl⟩ := Nat.exists_eq_succ_of_ne_zero (Nat.ne_of_gt (Nat.zero_lt_of_lt enough))
    have nonzero := (Chain.next ok goes rest).size_ne_zero
    have fits := ok.fits
    rw [BitVec.le_def] at fits
    have later := ih (show _ < fuel by rw [BitVec.toNat_sub_of_le ok.fits]; omega)
    simp [payloadCheckLoop, check_element_iff.mpr ok, goes, later]

/-- No element is empty, so that the search takes no more steps than there are bytes. -/
theorem find_ends (name : CString) (chain : Chain memory element left) (enough : left.toNat < fuel) :
    (payloadFindLoop memory name fuel element).value ≠ none := by
  induction chain generalizing fuel with
  | @last element left ok ends used =>
    obtain ⟨fuel, rfl⟩ := Nat.exists_eq_succ_of_ne_zero (Nat.ne_of_gt (Nat.zero_lt_of_lt enough))
    simp [payloadFindLoop, ends]
  | @next element left ok goes rest ih =>
    obtain ⟨fuel, rfl⟩ := Nat.exists_eq_succ_of_ne_zero (Nat.ne_of_gt (Nat.zero_lt_of_lt enough))
    have size := (Chain.next ok goes rest).size_ne_zero
    have fits := ok.fits
    rw [BitVec.le_def] at fits
    have later := ih (show _ < fuel by rw [BitVec.toNat_sub_of_le ok.fits]; omega)
    by_cases named : Named memory name element
    · simp only [Named] at named
      simp [payloadFindLoop, goes, named]
    · simp only [Named, Bool.not_eq_true] at named
      simpa [payloadFindLoop, goes, named] using later

/-- What the search returns is a visited element of that name. -/
theorem find_sound (result : (payloadFindLoop memory name fuel element).value = some (some found)) :
    Visited memory name element found ∧ Named memory name found ∧
      typeOf memory found ≠ PayloadType.terminator.code := by
  induction fuel generalizing element with
  | zero => simp [payloadFindLoop] at result
  | succ fuel ih =>
    by_cases ends : typeOf memory element = PayloadType.terminator.code
    · simp [payloadFindLoop, ends] at result
    · by_cases named : (strcmp memory name (payloadElementGetName element)).value = true
      · simp [payloadFindLoop, ends, named] at result
        subst result
        exact ⟨.here, named, ends⟩
      · simp [payloadFindLoop, ends, named] at result
        obtain ⟨visited, rest⟩ := ih result
        exact ⟨.step ends named visited, rest⟩

/-- Every visited element of that name is what the search returns. -/
theorem find_complete (visited : Visited memory name element found) (named : Named memory name found)
    (goes : typeOf memory found ≠ PayloadType.terminator.code) :
    ∃ fuel, (payloadFindLoop memory name fuel element).value = some (some found) := by
  induction visited with
  | here =>
    simp only [Named] at named
    exact ⟨1, by simp [payloadFindLoop, goes, named]⟩
  | step before other _ ih =>
    obtain ⟨fuel, result⟩ := ih named goes
    simp only [Named] at other
    exact ⟨fuel + 1, by simp [payloadFindLoop, before, other, result]⟩

theorem find_typed_iff :
    (payloadFindTyped memory name type fuel).value = some (some found) ↔
      (payloadFind memory name fuel).value = some (some found) ∧ typeOf memory found = type.code := by
  simp only [payloadFindTyped, value_bind]
  rcases (payloadFind memory name fuel).value with _ | _ | element
  · simp
  · simp
  · by_cases same : typeOf memory element = type.code
    · simp only [value_bind, get_type_value, same, ne_eq, not_true_eq_false, ↓reduceIte, value_pure,
        Option.some.injEq]
      exact ⟨fun eq => ⟨eq, eq ▸ same⟩, fun both => both.1⟩
    · simp only [value_bind, get_type_value, same, ne_eq, not_false_eq_true, ↓reduceIte, value_pure,
        Option.some.injEq, reduceCtorEq, false_iff, not_and]
      exact fun eq other => same (eq ▸ other)

/-! ## The guarantee -/

/-- The bytes a typed accessor's caller may read through the pointer returned. -/
def valueSize (memory : Memory) (element : Word) : PayloadType → Nat
  | .terminator => 0
  | .u32 | .i32 => 4
  | .u64 | .i64 => 8
  | .str => (dataSizeOf memory element).toNat

/-- What a caller of the accessors relies on after a successful check. -/
structure Validated (memory : Memory) (size : Word) : Prop where
  check : ∀ fuel, Within (· < size) (payloadCheck memory fuel size)
  find : ∀ name fuel, 0#8 ∉ name → Within (· < size) (payloadFind memory name fuel)
  typed : ∀ name type fuel, 0#8 ∉ name → Within (· < size) (payloadFindTyped memory name type fuel)
  get : ∀ name type fuel, 0#8 ∉ name → Within (· < size) (payloadGet type memory name fuel)
  stops : ∀ name, 0#8 ∉ name → ∃ fuel found, Visited memory name 0 found ∧
    ((typeOf memory found = PayloadType.terminator.code ∧
        (payloadFind memory name fuel).value = some none) ∨
      (Named memory name found ∧ (payloadFind memory name fuel).value = some (some found)))
  value : ∀ name type fuel found, 0#8 ∉ name →
    (payloadFindTyped memory name type fuel).value = some (some found) →
    (dataOf memory found).toNat + valueSize memory found type ≤ size.toNat
  string : ∀ name fuel found, 0#8 ∉ name →
    (payloadFindTyped memory name .str fuel).value = some (some found) →
    ∃ k < (dataSizeOf memory found).toNat, memory (dataOf memory found + BitVec.ofNat 32 k) = 0#8

/-- The names the checker looks at lie inside the buffer, and every string the
search can return is not empty and announces a size that fits a word. -/
structure Sized (memory : Memory) (size : Word) : Prop where
  names : ∀ found, Reached memory 0 found →
    found.toNat + 8 + (nameSizeOf memory found).toNat ≤ size.toNat
  strings : ∀ name found, 0#8 ∉ name → Visited memory name 0 found → Named memory name found →
    typeOf memory found = PayloadType.str.code →
    0 < (dataSizeOf memory found).toNat ∧ extent memory found < 2 ^ 32

theorem data_toNat {size : Word}
    (inside : found.toNat + 8 + (nameSizeOf memory found).toNat ≤ size.toNat) :
    (dataOf memory found).toNat = found.toNat + 8 + (nameSizeOf memory found).toNat := by
  have bound := size.isLt
  have narrow := (nameSizeOf memory found).isLt
  simp only [dataOf, headerSize, BitVec.toNat_add, BitVec.toNat_setWidth, BitVec.toNat_ofNat]
  omega

private theorem typed_found (result : (payloadFindTyped memory name type fuel).value =
      some (some found)) :
    Visited memory name 0 found ∧ Named memory name found ∧ typeOf memory found = type.code := by
  obtain ⟨searched, same⟩ := find_typed_iff.mp result
  obtain ⟨visited, named, -⟩ := find_sound searched
  exact ⟨visited, named, same⟩

theorem sized_of_validated (chain : Chain memory 0 size) (valid : Validated memory size) :
    Sized memory size := by
  have names := (check_within_iff chain (by simp)).mp valid.check
  refine ⟨names, fun name found plain visited named string => ?_⟩
  obtain ⟨fuel, searched⟩ := find_complete visited named (by rw [string]; decide)
  have result := find_typed_iff.mpr ⟨searched, string⟩
  obtain ⟨k, below, -⟩ := valid.string name fuel found plain result
  have value := valid.value name .str fuel found plain result
  rw [data_toNat (names found visited.reached)] at value
  have bound := size.isLt
  simp only [valueSize] at value
  simp only [extent]
  omega

private theorem found_header {size : Word} (chain : Chain memory 0 size)
    (result : (payloadFind memory name fuel).value = some (some found)) :
    HeaderWithin found (· < size) := by
  have place : (0 : Word).toNat + size.toNat = size.toNat := by simp
  obtain ⟨rest, own, within⟩ := chain.at_reached place (find_sound result).1.reached
  exact header_within own.head within

private theorem typed_within {size : Word} (chain : Chain memory 0 size)
    (find : Within (· < size) (payloadFind memory name fuel)) :
    Within (· < size) (payloadFindTyped memory name type fuel) := by
  simp only [payloadFindTyped, within_bind, find, true_and]
  cases result : (payloadFind memory name fuel).value with
  | none => simp
  | some answer =>
    cases answer with
    | none => simp
    | some found =>
      simp only [within_bind, get_type_within (found_header chain result), true_and]
      split <;> simp

private theorem get_within {size : Word} (chain : Chain memory 0 size)
    (find : Within (· < size) (payloadFind memory name fuel)) :
    Within (· < size) (payloadGet type memory name fuel) := by
  simp only [payloadGet, within_bind, typed_within chain find, true_and]
  cases result : (payloadFindTyped memory name type fuel).value with
  | none => simp
  | some answer =>
    cases answer with
    | none => simp
    | some found =>
      simp [get_data_within (found_header chain (find_typed_iff.mp result).1)]

/-- The data of a found element has the size its accessor takes for granted. -/
private theorem value_size_eq (ok : Element memory found left) (same : typeOf memory found = type.code) :
    valueSize memory found type = (dataSizeOf memory found).toNat := by
  have data := ok.data
  simp only [DataFilled, same] at data
  cases type <;> simp [PayloadType.code] at data <;> simp [valueSize, data]

theorem validated_of_sized (chain : Chain memory 0 size) (sized : Sized memory size) :
    Validated memory size := by
  have place : (0 : Word).toNat + size.toNat = size.toNat := by simp
  have find : ∀ name fuel, 0#8 ∉ name → Within (· < size) (payloadFind memory name fuel) :=
    fun name fuel plain => find_within chain place plain sized.names fuel
  refine ⟨(check_within_iff chain place).mpr sized.names, find,
    fun name type fuel plain => typed_within chain (find name fuel plain),
    fun name type fuel plain => get_within chain (find name fuel plain),
    fun name _ => find_stops chain, ?_, ?_⟩
  · intro name type fuel found plain result
    obtain ⟨visited, named, same⟩ := typed_found result
    obtain ⟨rest, own, within⟩ := chain.at_reached place visited.reached
    have fits : extent memory found < 2 ^ 32 := by
      by_cases string : typeOf memory found = PayloadType.str.code
      · exact (sized.strings name found plain visited named string).2
      · exact extent_fits own.head string
    have room := BitVec.le_def.mp own.head.fits
    rw [size_toNat, Nat.mod_eq_of_lt fits] at room
    rw [data_toNat (sized.names found visited.reached), value_size_eq own.head same]
    simp only [extent] at room
    omega
  · intro name fuel found plain result
    obtain ⟨visited, named, same⟩ := typed_found result
    obtain ⟨positive, -⟩ := sized.strings name found plain visited named same
    obtain ⟨rest, own, -⟩ := chain.at_reached place visited.reached
    have data := own.head.data
    simp [DataFilled, same, PayloadType.code] at data
    refine ⟨(dataSizeOf memory found).toNat - 1, by omega, ?_⟩
    have last : dataSizeOf memory found - 1#32 =
        BitVec.ofNat 32 ((dataSizeOf memory found).toNat - 1) := by
      have bound := (dataSizeOf memory found).isLt
      apply BitVec.eq_of_toNat_eq
      simp only [BitVec.toNat_sub, BitVec.toNat_ofNat]
      omega
    rw [← last]
    exact data

/-- A successful check protects the accessors on exactly the sized buffers. -/
theorem check_protects_accessors_iff_sized (memory : Memory) (size : Word) :
    (Accepted memory size → Validated memory size) ↔ (Accepted memory size → Sized memory size) := by
  constructor
  · exact fun valid accepted => sized_of_validated (accepted_iff_chain.mp accepted) (valid accepted)
  · exact fun sized accepted => validated_of_sized (accepted_iff_chain.mp accepted) (sized accepted)

/-- One string element of size zero with the empty name, then the terminator. -/
def emptyString : Memory := fun address =>
  [0x80#8, 0, 1, 0, 0, 0, 0, 0, 0, 0, 0, 1, 0, 0, 0, 0, 0, 0].getD address.toNat 0

/-- The checker accepts an empty string, and the string accessor then returns
a pointer to no terminated string at all. -/
theorem empty_string_is_not_terminated :
    Accepted emptyString 18#32 ∧ ¬ Validated emptyString 18#32 := by
  refine ⟨⟨2, by decide⟩, fun valid => ?_⟩
  obtain ⟨k, below, -⟩ := valid.string [] 1 0 (by simp) (by decide)
  have zero : (dataSizeOf emptyString 0).toNat = 0 := by decide
  omega

end Adbi.PayloadProofs
