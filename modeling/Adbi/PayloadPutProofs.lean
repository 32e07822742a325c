import Adbi.PayloadProofs
import Mathlib.Data.List.Basic

/-! What `payload_put_*` builds: a terminated payload of elements that their
headers can describe passes the check, and the search finds the first element of
a name with the data that was put in. -/
namespace Adbi.PayloadPutProofs
open Adbi.Lib Adbi.Lib.Traced Adbi.Payload Adbi.PayloadProofs

variable {memory : Memory} {address : Word} {element : Payload.Element}
  {elements : List Payload.Element} {name : CString}

/-- The data of each type. -/
def Typed : PayloadType → Bytes → Prop
  | .terminator, data => data = []
  | .u32, data => data.length = 4
  | .i32, data => data.length = 4
  | .u64, data => data.length = 8
  | .i64, data => data.length = 8
  | .str, data => ∃ text, data = text ++ [0#8]

/-- An element that its header can describe. -/
structure Storable (element : Payload.Element) : Prop where
  name : 0#8 ∉ element.name
  nameFits : element.name.length + 1 < 2 ^ 16
  dataFits : element.data.length < 2 ^ 32
  typed : Typed element.type element.data

/-- The number of bytes of an element. -/
def elementLength (element : Payload.Element) : Nat :=
  8 + (element.name.length + 1) + element.data.length

theorem add_element_eq (storable : Storable element) : payloadAddElement element =
    [element.type.code, 0#8] ++ littleEndian (BitVec.ofNat 16 (element.name.length + 1)) ++
      littleEndian (BitVec.ofNat 32 element.data.length) ++ (element.name ++ [0#8]) ++ element.data := by
  have name := storable.nameFits
  have data := storable.dataFits
  simp only [payloadAddElement, BitVec.toNat_ofNat, Nat.mod_eq_of_lt name, Nat.mod_eq_of_lt data]
  rw [List.take_of_length_le (by simp), List.take_of_length_le (by simp)]

theorem length_add_element (storable : Storable element) :
    (payloadAddElement element).length = elementLength element := by
  simp [add_element_eq storable, elementLength]
  omega

/-! ## One element in memory -/

/-- What the code reads of an element that stands in memory. -/
structure Stored (memory : Memory) (address : Word) (element : Payload.Element) : Prop where
  type : typeOf memory address = element.type.code
  nameSize : nameSizeOf memory address = BitVec.ofNat 16 (element.name.length + 1)
  dataSize : dataSizeOf memory address = BitVec.ofNat 32 element.data.length
  name : Holds memory (address + headerSize) (element.name ++ [0#8])
  data : Holds memory (dataOf memory address) element.data

private theorem halfword_eq (v : BitVec 16) : v.extractLsb' 8 8 ++ v.extractLsb' 0 8 = v := by
  ext i h
  simp
  grind

private theorem word_eq (v : BitVec 32) :
    (v.extractLsb' 24 8 ++ v.extractLsb' 16 8) ++ (v.extractLsb' 8 8 ++ v.extractLsb' 0 8) = v := by
  ext i h
  simp
  grind

theorem stored_of_holds (storable : Storable element)
    (holds : Holds memory address (payloadAddElement element)) :
    Stored memory address element := by
  have narrow := storable.nameFits
  have place : ∀ a : Word, a + 1#32 + 1#32 + 1#32 + 1#32 + 1#32 + 1#32 + 1#32 + 1#32 =
      a + headerSize := by
    intro a
    simp only [headerSize]
    bv_omega
  simp only [add_element_eq storable, littleEndian_halfword, littleEndian_word, List.cons_append,
    List.nil_append, holds_cons,
    show (1 : Word) = 1#32 from rfl, place] at holds
  obtain ⟨type, -, n0, n1, d0, d1, d2, d3, rest⟩ := holds
  obtain ⟨name, data⟩ := holds_append.mp rest
  have nameSize : nameSizeOf memory address = BitVec.ofNat 16 (element.name.length + 1) := by
    rw [nameSizeOf, show address + 2#32 + 1#32 = address + 1#32 + 1#32 + 1#32 by bv_omega,
      show address + 2#32 = address + 1#32 + 1#32 by bv_omega, n0, n1, halfword_eq]
  have dataSize : dataSizeOf memory address = BitVec.ofNat 32 element.data.length := by
    rw [dataSizeOf, show address + 4#32 + 2#32 + 1#32 =
      address + 1#32 + 1#32 + 1#32 + 1#32 + 1#32 + 1#32 + 1#32 by bv_omega,
      show address + 4#32 + 2#32 = address + 1#32 + 1#32 + 1#32 + 1#32 + 1#32 + 1#32 by bv_omega,
      show address + 4#32 + 1#32 = address + 1#32 + 1#32 + 1#32 + 1#32 + 1#32 by bv_omega,
      show address + 4#32 = address + 1#32 + 1#32 + 1#32 + 1#32 by bv_omega, d0, d1, d2, d3, word_eq]
  refine ⟨type, nameSize, dataSize, name, ?_⟩
  have width : (BitVec.ofNat 16 (element.name.length + 1)).setWidth 32 =
      BitVec.ofNat 32 (element.name ++ [0#8]).length := by
    apply BitVec.eq_of_toNat_eq
    simp
    omega
  rw [dataOf, nameSize, width]
  exact data

private theorem byte_of_text {text : CString} (holds : Holds memory address (text ++ [0#8])) :
    (∀ k < text.length, ∃ c ∈ text, memory (address + BitVec.ofNat 32 k) = c) ∧
      memory (address + BitVec.ofNat 32 text.length) = 0#8 := by
  obtain ⟨chars, ends⟩ := holds_append.mp holds
  refine ⟨fun k below => ⟨_, List.get_mem text ⟨k, below⟩, chars k below⟩, ?_⟩
  exact (holds_cons.mp ends).1

/-- The size that the code computes is the number of bytes. -/
theorem size_of_stored (storable : Storable element) (stored : Stored memory address element) :
    sizeOf memory address = BitVec.ofNat 32 (elementLength element) := by
  have narrow := storable.nameFits
  rw [PayloadProofs.sizeOf, stored.nameSize, stored.dataSize, elementLength, headerSize]
  apply BitVec.eq_of_toNat_eq
  simp
  omega

/-- A stored element passes the element check, if the rest of the buffer has room for it. -/
theorem element_of_stored (storable : Storable element) (stored : Stored memory address element)
    {size : Word}
    (room : elementLength element ≤ size.toNat) : PayloadProofs.Element memory address size := by
  have narrow := storable.nameFits
  have bound := size.isLt
  obtain ⟨chars, ends⟩ := byte_of_text stored.name
  have width : (nameSizeOf memory address).toNat = element.name.length + 1 := by
    rw [stored.nameSize, BitVec.toNat_ofNat, Nat.mod_eq_of_lt narrow]
  have nonzero : nameSizeOf memory address ≠ 0#16 := by
    intro zero
    rw [zero] at width
    simp at width
  refine ⟨?_, ?_, ⟨nonzero, ?_, ?_⟩, ?_⟩
  · rw [headerSize, BitVec.le_def, BitVec.toNat_ofNat]
    simp only [elementLength] at room
    omega
  · rw [size_of_stored storable stored, BitVec.le_def, BitVec.toNat_ofNat]
    omega
  · rw [last_name_byte nonzero, width]
    exact ends
  · intro k below
    obtain ⟨c, member, same⟩ := chars k (by omega)
    rw [same]
    exact fun zero => storable.name (zero ▸ member)
  · have typed := storable.typed
    unfold DataFilled
    rw [stored.type, stored.dataSize]
    cases kind : element.type with
    | terminator =>
      rw [kind] at typed
      exact .inl ⟨rfl, by simp [show element.data = [] from typed]⟩
    | i32 =>
      rw [kind] at typed
      exact .inr (.inl ⟨rfl, by simp [show element.data.length = 4 from typed]⟩)
    | u32 =>
      rw [kind] at typed
      exact .inr (.inr (.inl ⟨rfl, by simp [show element.data.length = 4 from typed]⟩))
    | i64 =>
      rw [kind] at typed
      exact .inr (.inr (.inr (.inl ⟨rfl, by simp [show element.data.length = 8 from typed]⟩)))
    | u64 =>
      rw [kind] at typed
      exact .inr (.inr (.inr (.inr (.inl ⟨rfl, by simp [show element.data.length = 8 from typed]⟩))))
    | str =>
      rw [kind] at typed
      obtain ⟨text, eq⟩ := typed
      have data := stored.data
      rw [eq] at data ⊢
      refine .inr (.inr (.inr (.inr (.inr ⟨rfl, ?_⟩))))
      rw [show BitVec.ofNat 32 (text ++ [0#8]).length - 1#32 =
        BitVec.ofNat 32 text.length by simp; bv_omega]
      exact (byte_of_text data).2

/-! ## A whole payload -/

/-- The elements of a payload before its terminator. -/
structure Built (elements : List Payload.Element) : Prop where
  storable : ∀ element ∈ elements, Storable element
  plain : ∀ element ∈ elements, element.type ≠ .terminator

theorem term_storable : Storable payloadPutTerm := by
  constructor <;> simp [payloadPutTerm, Typed]

theorem payloadBytes_cons : payloadBytes (element :: elements) =
    payloadAddElement element ++ payloadBytes elements := by
  simp [payloadBytes]

theorem code_ne_terminator {type : PayloadType} (plain : type ≠ .terminator) :
    type.code ≠ PayloadType.terminator.code := by
  cases type <;> simp [PayloadType.code] at plain ⊢

/-- A terminated payload is a chain of elements. -/
theorem chain_of_built (built : Built elements)
    (holds : Holds memory address (payloadBytes (elements ++ [payloadPutTerm]))) {size : Word}
    (total : size.toNat = (payloadBytes (elements ++ [payloadPutTerm])).length) :
    Chain memory address size := by
  induction elements generalizing address size with
  | nil =>
    simp only [payloadBytes, List.nil_append, List.flatMap_cons, List.flatMap_nil,
      List.append_nil] at holds total
    have stored := stored_of_holds term_storable holds
    rw [length_add_element term_storable] at total
    refine .last (element_of_stored term_storable stored (by omega)) (by rw [stored.type]; rfl) ?_
    rw [size_of_stored term_storable stored]
    apply BitVec.eq_of_toNat_eq
    rw [total]
    rfl
  | cons element rest ih =>
    have storable := built.storable element List.mem_cons_self
    rw [List.cons_append, payloadBytes_cons] at holds total
    obtain ⟨here, later⟩ := holds_append.mp holds
    rw [List.length_append, length_add_element storable] at total
    have stored := stored_of_holds storable here
    have bound := size.isLt
    have width : (sizeOf memory address).toNat = elementLength element := by
      rw [size_of_stored storable stored, BitVec.toNat_ofNat, Nat.mod_eq_of_lt (by omega)]
    refine .next (element_of_stored storable stored (by omega)) ?_ (ih ?_ ?_ ?_)
    · rw [stored.type]
      exact code_ne_terminator (built.plain element List.mem_cons_self)
    · exact ⟨fun e member => built.storable e (List.mem_cons_of_mem _ member),
        fun e member => built.plain e (List.mem_cons_of_mem _ member)⟩
    · rwa [size_of_stored storable stored, ← length_add_element storable]
    · rw [BitVec.toNat_sub_of_le (by rw [BitVec.le_def]; omega), width]
      omega

/-- A payload at the start of its memory. -/
theorem holds_payload {bytes : Bytes} (fits : bytes.length < 2 ^ 32) :
    Holds (fun place : Word => bytes.getD place.toNat 0) 0 bytes := holds_of_getD (by omega) 0#8

/-- A terminated payload passes the check. -/
theorem check_built (built : Built elements)
    (fits : (payloadBytes (elements ++ [payloadPutTerm])).length < 2 ^ 32)
    {fuel : Nat} (enough : (payloadBytes (elements ++ [payloadPutTerm])).length < fuel) :
    (payloadCheck (fun place => (payloadBytes (elements ++ [payloadPutTerm])).getD place.toNat 0) fuel
      (BitVec.ofNat 32 (payloadBytes (elements ++ [payloadPutTerm])).length)).value = some true := by
  have size : (BitVec.ofNat 32 (payloadBytes (elements ++ [payloadPutTerm])).length).toNat =
      (payloadBytes (elements ++ [payloadPutTerm])).length := by
    rw [BitVec.toNat_ofNat, Nat.mod_eq_of_lt fits]
  exact check_ends (chain_of_built built (holds_payload fits) size) (by rwa [size])

/-! ## Finding an element -/

/-- Comparing with a string in memory compares the strings. -/
theorem strcmp_iff {other : CString} (plain : 0#8 ∉ name) (otherPlain : 0#8 ∉ other)
    (holds : Holds memory address (other ++ [0#8])) : (strcmp memory name address).value = true ↔
    name = other := by
  induction name generalizing address other with
  | nil =>
    cases other with
    | nil => simp [strcmp, (holds_cons.mp holds).1]
    | cons c rest =>
      have first : memory address = c := (holds_cons.mp holds).1
      have nonzero : c ≠ 0#8 := fun zero => otherPlain (zero ▸ List.mem_cons_self)
      simp [strcmp, first, nonzero]
  | cons c rest ih =>
    have nonzero : c ≠ 0#8 := fun zero => plain (zero ▸ List.mem_cons_self)
    cases other with
    | nil =>
      have first : memory address = 0#8 := (holds_cons.mp holds).1
      simp [strcmp, first, nonzero.symm]
    | cons d later =>
      have first : memory address = d := (holds_cons.mp holds).1
      by_cases same : d = c
      · have rest_iff := ih (fun member => plain (List.mem_cons_of_mem _ member))
          (fun member => otherPlain (List.mem_cons_of_mem _ member)) (holds_cons.mp holds).2
        subst same
        simpa [strcmp, first] using rest_iff
      · simp [strcmp, first, same]
        exact fun eq => absurd eq.symm same

/-- The search stops at the first element of the name. -/
theorem find_built {before after : List Payload.Element} (built : Built (before ++ element :: after))
    (holds : Holds memory address (payloadBytes (before ++ element :: after ++ [payloadPutTerm])))
    (first : ∀ e ∈ before, e.name ≠ element.name) (enough : before.length < fuel) :
    ∃ found, (payloadFindLoop memory element.name fuel address).value = some (some found) ∧
      Stored memory found element := by
  induction before generalizing address fuel with
  | nil =>
    have storable := built.storable element List.mem_cons_self
    obtain ⟨fuel, rfl⟩ : ∃ k, fuel = k + 1 := ⟨fuel - 1, by simp at enough; omega⟩
    rw [List.nil_append, List.cons_append, payloadBytes_cons] at holds
    have stored := stored_of_holds storable (holds_append.mp holds).1
    have goes : typeOf memory address ≠ PayloadType.terminator.code := by
      rw [stored.type]
      exact code_ne_terminator (built.plain element List.mem_cons_self)
    have named := (strcmp_iff storable.name storable.name stored.name).mpr rfl
    exact ⟨address, by simp [payloadFindLoop, goes, payloadElementGetName, named], stored⟩
  | cons e rest ih =>
    have storable := built.storable e List.mem_cons_self
    obtain ⟨fuel, rfl⟩ : ∃ k, fuel = k + 1 := ⟨fuel - 1, by simp at enough; omega⟩
    rw [List.cons_append, List.cons_append, payloadBytes_cons] at holds
    obtain ⟨here, later⟩ := holds_append.mp holds
    have stored := stored_of_holds storable here
    have goes : typeOf memory address ≠ PayloadType.terminator.code := by
      rw [stored.type]
      exact code_ne_terminator (built.plain e List.mem_cons_self)
    have wanted := built.storable element (by simp)
    have other : ¬(strcmp memory element.name (address + headerSize)).value = true := by
      rw [strcmp_iff wanted.name storable.name stored.name]
      exact fun same => first e List.mem_cons_self same.symm
    rw [length_add_element storable, ← size_of_stored storable stored] at later
    obtain ⟨found, result, there⟩ :=
      ih ⟨fun e member => built.storable e (List.mem_cons_of_mem _ member),
      fun e member => built.plain e (List.mem_cons_of_mem _ member)⟩ later
      (fun e member => first e (List.mem_cons_of_mem _ member)) (by simp at enough; omega)
    exact ⟨found, by simpa [payloadFindLoop, goes, payloadElementGetName, other] using result, there⟩

/-- The accessor of its type returns a pointer to the data of an element. -/
theorem get_built {before after : List Payload.Element} (fuel : Nat)
    (built : Built (before ++ element :: after))
    (holds : Holds memory 0 (payloadBytes (before ++ element :: after ++ [payloadPutTerm])))
    (first : ∀ e ∈ before, e.name ≠ element.name) (enough : before.length < fuel) :
    ∃ place, (payloadGet element.type memory element.name fuel).value = some (some place) ∧
    Holds memory place element.data := by
  obtain ⟨found, result, stored⟩ := find_built built holds first enough
  have typed : (payloadFindTyped memory element.name element.type fuel).value = some (some found) :=
    find_typed_iff.mpr ⟨result, stored.type⟩
  exact ⟨dataOf memory found, by simp [payloadGet, typed], stored.data⟩

end Adbi.PayloadPutProofs
